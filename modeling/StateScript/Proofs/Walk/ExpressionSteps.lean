import StateScript.Proofs.Walk.Steps

/-! # Expressions are made of steps

  Every rule up to expressions, the places of assignments and the simple statements is
  `Paced`. A rule that is handed a symbol relies on its sort, and what finds or makes a
  symbol yields the sort: names lead to variables, members are made in the scope of
  members, and calls choose among functions.
-/

namespace StateScript.Walk

variable {id : Nat} {wanted : ValueType}

set_option synthInstance.maxSize 1000000000

variable {α β : Type} {T : Table}

/-! ### Literals and conversions -/

instance (t : Token) (type : ValueType) : Paced T (literalOperand t type) := by
  unfold literalOperand
  split
  · infer_instance
  · split <;> infer_instance

theorem isValue_numeralOperand? {n : Number.Numeral} {type : ValueType} {x : Operand}
    (h : numeralOperand? n type = some x) : IsValue T x := by
  refine isValue_of_literal ?_
  unfold numeralOperand? at h
  split at h
  · cases h
  · split at h
    all_goals first
      | (cases h; rfl)
      | (split at h <;> cases h; rfl)
      | cases h

theorem yields_errorHere (code : Code) (message : String) (q : α → Prop) :
    Yields T (errorHere code message : Walk α) q := by
  refine .of_ne_ok fun s a s' h => ?_
  unfold errorHere at h
  rw [position_bind] at h
  obtain ⟨log, -, -, -, -, hrun⟩ := errorAt_eq (α := α) s.pos code message s
  rw [hrun] at h
  cases h

theorem yields_errorAt (index : Nat) (code : Code) (message : String) (q : α → Prop) :
    Yields T (errorAt index code message : Walk α) q := by
  refine .of_ne_ok fun s a s' h => ?_
  obtain ⟨log, -, -, -, -, hrun⟩ := errorAt_eq (α := α) index code message s
  rw [hrun] at h
  cases h

theorem yields_literalOperand (t : Token) (type : ValueType) :
    Yields T (literalOperand t type) (IsValue T) := by
  unfold literalOperand
  split
  · exact .bind (yields_intern t.text) fun id hid => .pure hid
  · split
    · next x hx =>
      obtain ⟨n, -, hx⟩ := Option.bind_eq_some_iff.1 hx
      exact .pure (isValue_numeralOperand? hx)
    · exact yields_errorHere _ _ _

instance : Paced T literalExpression := by
  unfold literalExpression
  refine .seq fun isNegative => .seq fun t => ?_
  refine .bind_yields inferInstance (yields_literalOperand _ _) fun x hx => ?_
  exact .bind (paced_emitFor (by simpa using hx) _ _) fun _ => inferInstance

theorem paced_store {slot : Operand} (hslot : IsValue T slot) (value wanted : ValueType)
    (index : Nat) : Paced T (store value wanted slot index) := by
  unfold store
  have mov : Paced T (emitFor wanted .mov [slot, op1]) :=
    paced_emitFor (by simpa [op1] using ⟨hslot, True.intro⟩) _ _
  have pop : Paced T (emitFor wanted .pop [slot]) := paced_emitFor (by simpa using hslot) _ _
  infer_instance

theorem paced_storeVariable (hid : T.IsVar id) (value : ValueType) :
    Paced T (storeVariable id value) := by
  unfold storeVariable
  refine .seq fun wanted => ?_
  refine .bind_yields inferInstance (yields_slot hid) fun slot hslot => ?_
  exact .seq fun pos => paced_store hslot ..

/-! ### Places -/

/-- A place whose symbol is of the sort that it says. -/
def Place.Sound (T : Table) : Place → Prop
  | .plain id _ | .element id _ => T.IsVar id
  | .member id _ _ => T.IsMember id
  | .unknown => True

/-- An instruction that refers to one symbol. -/
theorem paced_emit_symbol (op : Opcode) (id : Nat) (hid : Names T op id) {operands : List Operand}
    (h : ∀ x ∈ operands, x = .symbol id ∨ x.isReference = false) : Paced T (emit op operands) := by
  refine paced_emit fun x hx => ?_
  rcases h x hx with rfl | hx
  · exact hid
  · exact suits_of_literal hx

theorem paced_storePlace {place : Place} (hplace : place.Sound T) (value : ValueType)
    (index : Nat) :
    Paced T (storePlace place value index) := by
  unfold storePlace
  refine .seq fun isEmitting => ?_
  split
  · cases place with
    | plain id type =>
      exact .bind_yields inferInstance (yields_slot hplace) fun slot hslot => paced_store hslot ..
    | element id type =>
      refine .seq fun _ => .seq fun _ => .seq fun _ => ?_
      refine .bind_yields inferInstance (yields_opcodeFor _ _) fun mov hmov => ?_
      refine .bind_yields inferInstance (yields_indexedSlot hplace _) fun slot hslot => ?_
      exact .bind (paced_emitOrdinary hmov (by simpa [op1] using ⟨hslot, True.intro⟩)) fun _ =>
        inferInstance
    | member id type isIndexed =>
      have indexed : Paced T (emit .setMemberIndexed [reserved1, .symbol id, op2, op1]) :=
        paced_emit_symbol .setMemberIndexed id hplace
          (by simp [reserved1, op1, op2, Operand.isReference])
      have plain : Paced T (emit .setMember [reserved1, .symbol id, op1]) :=
        paced_emit_symbol .setMember id hplace (by simp [reserved1, op1, Operand.isReference])
      infer_instance
    | unknown => infer_instance
  · infer_instance

/-- Pushing what stands in the place of a variable, or any other value. -/
theorem paced_pushFor {x : Walk Operand} (hx : Paced T x) (hvalue : Yields T x (IsValue T))
    (type : ValueType) (op : Operation) {y : Walk β} (hy : Paced T y) :
    Paced T (do
      let opcode ← opcodeFor type op
      emit opcode [← x]
      y) := by
  refine .bind_yields inferInstance (yields_opcodeFor _ _) (fun opcode hop => ?_) fun opcode => ?_
  · refine .bind_yields hx hvalue (fun operand hoperand => ?_) fun operand => ?_
    · exact .bind (paced_emitOrdinary hop (by simpa using hoperand)) fun _ => hy
    · exact .seq fun _ => hy.respects
  · exact .bind hx.respects fun operand => .seq fun _ => hy.respects

theorem paced_pushSlot (hid : T.IsVar id) (type : ValueType) (op : Operation) {y : Walk β}
    (hy : Paced T y) :
    Paced T (do
      let opcode ← opcodeFor type op
      emit opcode [← slot id]
      y) :=
  paced_pushFor inferInstance (yields_slot hid) type op hy

theorem paced_loadPlace {place : Place} (hplace : place.Sound T) : Paced T (loadPlace place) := by
  unfold loadPlace
  cases place with
  | plain id type => exact .seq fun _ => paced_pushSlot hplace _ _ inferInstance
  | element id type =>
    refine .seq fun _ => .seq fun _ => .seq fun _ => ?_
    exact paced_pushFor inferInstance (yields_indexedSlot hplace _) _ _ inferInstance
  | member id type isIndexed =>
    have indexed : Paced T (emit .getMemberIndexed [reserved1, .symbol id, reserved2]) :=
      paced_emit_symbol .getMemberIndexed id hplace
        (by simp [reserved1, reserved2, Operand.isReference])
    have plain : Paced T (emit .getMember [reserved1, .symbol id]) :=
      paced_emit_symbol .getMember id hplace (by simp [reserved1, Operand.isReference])
    infer_instance
  | unknown => exact inferInstanceAs (Paced T (pure _))

/-! ### Operators -/

instance (op : Kind) (left right : ValueType) (index : Nat) :
    Paced T (binary op left right index) := by
  unfold binary
  dsimp only
  infer_instance

instance (op : Kind) (type : ValueType) (index : Nat) : Paced T (unaryOperator op type index) := by
  unfold unaryOperator
  dsimp only
  infer_instance

theorem paced_stepVariable (hid : T.IsVar id) (op : Kind) (index : Nat) :
    Paced T (stepVariable id op index) := by
  unfold stepVariable
  refine .seq fun traits => ?_
  dsimp only
  have step : Paced T (do
      let opcode ← opcodeFor traits.1 (stepOperation op)
      emit opcode [← slot id]) := by
    refine .bind_yields inferInstance (yields_opcodeFor _ _) fun opcode hop => ?_
    refine .bind_yields inferInstance (yields_slot hid) fun slot hslot => ?_
    exact paced_emitOrdinary hop (by simpa using hslot)
  infer_instance

/-! ### Calls -/

instance (args : List Argument) (types : List ValueType) : Paced T (castArguments args types) := by
  unfold castArguments
  have each : ∀ x : Argument × ValueType, Paced T (castArgument x.1 x.2) := inferInstance
  infer_instance

/-- A path leads to functions that are called by their names. -/
theorem yields_candidates (path : List Token) :
    Yields T (candidates path) fun ids => ∀ id ∈ ids, T.IsCallable id := by
  -- What is found by name is a function that is no method, now and at the end.
  have callable : ∀ {t : Table} {scope : Nat} {name : String} {id : Nat}, t.Grows T →
      id ∈ t.findAll scope name (fun x => x.kind.function?.any fun f => !f.flags.method) →
      T.IsCallable id := by
    intro t scope name id hgrows hid
    have hmatch := (List.mem_filter.1 hid).2
    unfold Table.isMatch at hmatch
    cases hx : t.get? id with
    | none =>
      rw [hx] at hmatch
      cases hmatch
    | some x =>
      rw [hx] at hmatch
      simp only [Bool.and_eq_true, Option.any_eq_true, Bool.not_eq_true'] at hmatch
      obtain ⟨-, f, hf, hmethod⟩ := hmatch
      exact hgrows.isCallable ⟨f, Table.function?_of_get? hx hf, hmethod⟩
  unfold candidates
  dsimp only
  split
  · exact .pure (by simp)
  -- A single name is looked up in all scopes around.
  · intro s ids s' hrun hgrows
    obtain ⟨scopes, s₁, -, hrest⟩ := bind_eq_ok.1 hrun
    obtain ⟨-, hrest⟩ := ensure_bind_eq_ok hrest
    cases hrest
    intro id hid
    obtain ⟨scope, -, hid⟩ := List.mem_flatMap.1 hid
    exact callable hgrows hid
  -- A longer path leads to one scope first.
  · refine .after fun found => ?_
    split
    · intro s ids s' hrun hgrows
      obtain ⟨-, hrun⟩ := ensure_bind_eq_ok hrun
      cases hrun
      exact fun id hid => callable hgrows hid
    · exact .pure (by simp)

theorem yields_signatures (path : List Token) :
    Yields T (signatures path) fun all => ∀ x ∈ all, T.IsCallable x.id := by
  unfold signatures
  refine .bind (yields_candidates path) (fun ids hids => ?_)
    fun _ => .seq fun _ => .view fun _ _ => rfl
  intro s all s' hrun _
  obtain ⟨-, hrun⟩ := ensure_bind_eq_ok hrun
  cases hrun
  intro x hx
  obtain ⟨id, hid, hx⟩ := List.mem_filterMap.1 hx
  obtain ⟨symbol, -, hx⟩ := Option.bind_eq_some_iff.1 hx
  obtain ⟨f, -, hx⟩ := Option.bind_eq_some_iff.1 hx
  cases hx
  exact hids id hid

theorem paced_chosenCall {all : List Signature} (hall : ∀ x ∈ all, T.IsCallable x.id)
    (args : List Argument) (path : List Token) (index : Nat) :
    Paced T (chosenCall args all path index) := by
  unfold chosenCall
  dsimp only
  split
  · infer_instance
  · next chosen hchosen =>
    have callable := hall chosen (mem_of_chooseOverload hchosen)
    have call : Paced T (emit .call [.symbol chosen.id]) :=
      paced_emit_symbol .call chosen.id callable (by simp)
    infer_instance

theorem paced_readingOperand (literal : Option Token) (type : ValueType) :
    Paced T (readingOperand id literal type) := by
  unfold readingOperand
  split <;> infer_instance

theorem yields_readingOperand (hid : T.IsVar id) (literal : Option Token) (type : ValueType) :
    Yields T (readingOperand id literal type) (IsValue T) := by
  unfold readingOperand
  split
  · exact yields_literalOperand _ _
  · exact yields_slot hid

theorem isVar_of_leads {found : Option Nat} (h : Leads isVariable T found) (hid : found = some id) :
    T.IsVar id :=
  h.isVar (fun _ hx => hx) hid

/-! ### Members -/

instance (op : Kind) : Paced T (prefixStep op) := by
  unfold prefixStep
  refine .seq fun index => .seq fun path => ?_
  refine .bind_yields inferInstance (yields_resolvePath path isVariable) fun found hfound => ?_
  split
  · next id =>
    have hid := isVar_of_leads hfound rfl
    refine .seq fun _ => .bind (paced_stepVariable hid op index) fun _ => ?_
    exact .seq fun type => paced_pushSlot hid _ _ inferInstance
  · infer_instance

/-- What is found in a scope or else made there. -/
theorem paced_findOrMake {scope : Nat} {name : String} {filter : Symbol → Bool} {kind : SymbolKind}
    [NewKind kind]
    (new : ∀ t : Table, t.find? scope name filter = none → Discovers t scope name kind) :
    Paced T (do
      match ← findChild scope name filter with
      | some id => return id
      | none => addSymbol scope name kind) where
  respects := by
    refine .seq fun found => ?_
    split <;> infer_instance
  run s hcounts hcontinues hgrows := by
    cases hfind : findChild scope name filter s with
    | error e s₁ =>
      have find : Paced T (findChild scope name filter) := inferInstance
      have hsteps := find.run s hcounts
      rw [bind_of_error hfind] at hcontinues hgrows ⊢
      rw [hfind] at hsteps
      exact hsteps hcontinues hgrows
    | ok found s₁ =>
      rw [bind_of_ok hfind] at hcontinues ⊢
      obtain ⟨rfl, hfound⟩ := findChild_eq_ok hfind
      cases found with
      | some id => exact .refl
      | none => exact paced_discover hfound.symm new hcontinues

theorem yields_findOrMake {scope : Nat} {name : String} {filter : Symbol → Bool} {kind : SymbolKind}
    {q : Table → Nat → Prop} (hgrows : ∀ t t' id, t.Grows t' → q t id → q t' id)
    (hold : ∀ t : Table, ∀ id x, id ∈ t.children scope → t.get? id = some x → filter x = true →
      q t id)
    (hnew : ∀ t : Table, t.kind? (t.size - 1) = some kind → t.size - 1 ∈ t.children scope →
      q t (t.size - 1)) :
    Yields T (do
      match ← findChild scope name filter with
      | some id => return id
      | none => addSymbol scope name kind) (q T) := by
  intro s id s' hrun hT
  obtain ⟨found, s₁, hfind, hrest⟩ := bind_eq_ok.1 hrun
  obtain ⟨rfl, hfound⟩ := findChild_eq_ok hfind
  cases found with
  | some id' =>
    cases hrest
    obtain ⟨hmem, x, hx, -, hfilter⟩ := Table.find?_eq_some hfound.symm
    exact hgrows _ _ _ hT (hold _ _ x hmem hx hfilter)
  | none =>
    obtain ⟨hscope, rfl, rfl⟩ := addSymbol_eq_ok hrest
    -- What is made is the last symbol of the table.
    have hq := hnew (s₁.table.add (some scope) name kind)
    rw [Table.size_add, Nat.add_sub_cancel, Table.kind?_add, if_pos rfl, Table.children_add hscope,
      if_pos rfl] at hq
    exact hgrows _ _ _ hT (hq rfl (by simp))

instance (name : String) (type : ValueType) : Paced T (memberVariable name type) := by
  unfold memberVariable
  exact paced_findOrMake fun t h => .member h

theorem yields_memberVariable (name : String) (type : ValueType) :
    Yields T (memberVariable name type) T.IsMember := by
  unfold memberVariable
  refine yields_findOrMake (q := Table.IsMember) (fun t t' id h => h.isMember) ?_ ?_
  · intro t id x hmem hx hfilter
    obtain ⟨v, hv, -⟩ := (Option.any_eq_true _ _).1 hfilter
    exact ⟨Table.isVar_of_get? hx (Option.isSome_of_eq_some hv), hmem⟩
  · intro t hkind hmem
    exact ⟨⟨_, Table.var?_eq_some.2 hkind⟩, hmem⟩

instance (name : String) (returnType : ValueType) : Paced T (memberFunction name returnType) := by
  unfold memberFunction
  exact paced_findOrMake fun t h => .method h

theorem yields_memberFunction (name : String) (returnType : ValueType) :
    Yields T (memberFunction name returnType) T.IsMethod := by
  unfold memberFunction
  refine yields_findOrMake (q := Table.IsMethod) (fun t t' id h => h.isMethod) ?_ ?_
  · intro t id x hmem hx hfilter
    obtain ⟨f, hf, -⟩ := (Option.any_eq_true _ _).1 hfilter
    exact ⟨⟨f, Table.function?_of_get? hx hf⟩, hmem⟩
  · intro t hkind hmem
    exact ⟨⟨_, Table.function?_eq_some.2 hkind⟩, hmem⟩

/-- The first call of a method finds it unused, and so fixes its parameters. -/
theorem paced_passToMethod {method : Nat} (hmethod : T.IsMethod method) (args : List Argument)
    (name : String) (index : Nat) : Paced T (passToMethod method args name index) where
  respects := inferInstance
  run s hcounts hcontinues hgrows := by
    unfold passToMethod at hcontinues hgrows ⊢
    dsimp only at hcontinues hgrows ⊢
    cases hx : s.table.get? method with
    | none =>
      have hrun : symbol method s = .error .broken s := by
        unfold symbol
        rw [hx]
      rw [bind_of_error hrun]
      exact .refl
    | some x =>
      have hrun : symbol method s = .ok x s := by
        unfold symbol
        rw [hx]
      rw [bind_of_ok hrun] at hcontinues hgrows ⊢
      cases hf : x.kind.function? with
      | none => exact .refl
      | some f =>
        simp only [hf] at hcontinues hgrows ⊢
        split
        -- It has been called, so the arguments are only converted.
        · next hused =>
          rw [if_pos hused] at hcontinues hgrows
          exact Paced.run s hcounts hcontinues hgrows
        · next hused =>
          have hlt : method < s.table.size := Table.get?_lt hx
          unfold modifyFunction
          rw [modifyKind_of_lt _ hlt]
          exact .single (.fix _ hmethod (Table.function?_of_get? hx hf) (Bool.eq_false_iff.2 hused))

/-! ### Rules over what is nested inside -/

section Nested

variable (unary expression : Walk ValueType) [Respects .any 0 unary] [Respects .any 0 expression]
  [hplain : Respects .plain 0 expression] [Paced T unary] [Paced T expression]

instance (path : List Token) (index : Nat) : Paced T (call expression path index) := by
  unfold call
  refine .seq fun args => ?_
  refine .bind_yields inferInstance (yields_signatures path) fun all hall => ?_
  refine .seq fun isEmitting => ?_
  split
  · have chosen := paced_chosenCall hall args path index
    infer_instance
  · split <;> infer_instance

omit [Respects .any 0 expression] hplain in
theorem paced_knownVariable (hid : T.IsVar id) (path : List Token) (index : Nat) :
    Paced T (knownVariable expression path index id) := by
  unfold knownVariable
  refine .seq fun _ => .seq fun x => .seq fun isIndexed => ?_
  dsimp only
  split
  · refine .seq fun _ => .seq fun isEmitting => ?_
    have element : ∀ type : ValueType, Paced T (do
        let push ← opcodeFor type .push
        emit (.pop (.numeric .int)) [op1]
        emit push [← indexedSlot id .op1]
        return type) := by
      intro type
      refine .bind_yields inferInstance (yields_opcodeFor _ _) fun push hpush => ?_
      refine .seq fun _ => ?_
      refine .bind_yields inferInstance (yields_indexedSlot hid _) fun slot hslot => ?_
      exact .bind (paced_emitOrdinary hpush (by simpa using hslot)) fun _ => inferInstance
    infer_instance
  · refine .seq fun op => ?_
    split
    · have step := paced_stepVariable hid
      exact .seq fun _ => paced_pushSlot hid _ _ inferInstance
    · exact paced_pushFor (paced_readingOperand _ _)
        (yields_readingOperand hid _ _) _ _ inferInstance

instance : Paced T (nameExpression expression) := by
  unfold nameExpression
  refine .seq fun index => .seq fun path => ?_
  refine .seq fun isCall => ?_
  split
  · infer_instance
  · refine .bind_yields inferInstance (yields_resolvePath path isVariable) fun found hfound => ?_
    split
    · exact paced_knownVariable expression (isVar_of_leads hfound rfl) path index
    · infer_instance

instance (name : String) (returnType : ValueType) (index : Nat) :
    Paced T (methodCall expression name returnType index) := by
  unfold methodCall
  refine .bind_yields inferInstance (yields_memberFunction name returnType) fun method hmethod => ?_
  have pass := fun args => paced_passToMethod hmethod args name index
  have call : Paced T (emit .callMethod [.symbol method]) :=
    paced_emit_symbol .callMethod method hmethod (by simp)
  infer_instance

/-- What follows an arrow refers to a member. -/
def Accessed.Sound (T : Table) : Accessed → Prop
  | .pending m => T.IsMember m.id
  | .called _ => True

omit [Paced T expression] in
theorem yields_access (name : String) (type : ValueType) (index : Nat) :
    Yields T (access expression name type index) (Accessed.Sound T) := by
  unfold access
  refine .after fun isCall => .ite (fun _ => .after fun type => .pure True.intro) fun _ => ?_
  refine .after fun isIndexed => ?_
  have pending : Yields T (do
      return Accessed.pending { id := ← memberVariable name type, type, isIndexed })
      (Accessed.Sound T) := .bind (yields_memberVariable name type) fun id hid => .pure hid
  exact .ite (fun _ => .after fun _ => pending) fun _ => pending

omit [Paced T expression] in
theorem yields_accessor (object : ValueType) :
    Yields T (accessor expression object) (Accessed.Sound T) := by
  unfold accessor
  refine .after fun index => .after fun _ => .after fun _ => .after fun type => .after fun _ => ?_
  refine .after fun name => .after fun isEmitting => ?_
  exact .ite (fun _ => .after fun _ => yields_access expression _ _ _) fun _ =>
    yields_access expression _ _ _

theorem paced_readMember {m : Member} (hm : T.IsMember m.id) : Paced T (readMember m) := by
  have indexed : Paced T (emit .getMemberIndexed [op1, .symbol m.id, op2]) :=
    paced_emit_symbol .getMemberIndexed m.id hm (by simp [op1, op2, Operand.isReference])
  have plain : Paced T (emit .getMember [op1, .symbol m.id]) :=
    paced_emit_symbol .getMember m.id hm (by simp [op1, Operand.isReference])
  unfold readMember
  infer_instance

/-! ### Primary expressions and levels -/

instance : Paced T (newArray expression) := by
  unfold newArray
  refine .seq fun _ => .seq fun next => ?_
  split <;> infer_instance

/-- What counts the turns of the innermost counted loop is a variable. -/
theorem paced_counter {f : Option Nat → Walk β}
    (hf : ∀ counter, (∀ id, counter = some id → T.IsVar id) → Paced T (f counter))
    (hr : ∀ counter, Respects .any 0 (f counter)) :
    Paced T (view (fun s => s.loops.findSome? (·.counter)) >>= f) where
  respects := .bind inferInstance hr
  run s hcounts hcontinues hgrows := by
    rw [view_bind] at hcontinues hgrows ⊢
    refine (hf _ fun id hid => ?_).run s hcounts hcontinues hgrows
    obtain ⟨frame, hframe, hcounter⟩ := List.exists_of_findSome?_eq_some hid
    exact hcounts frame hframe id hcounter

instance : Paced T indexer := by
  unfold indexer
  refine .seq fun index => .seq fun _ => ?_
  refine paced_counter (fun counter hcounter => ?_) fun counter => ?_
  · split
    · infer_instance
    · next id =>
      refine .bind_yields inferInstance (yields_slot (hcounter id rfl)) fun slot hslot => ?_
      exact .bind (paced_emitOrdinary rfl (by simpa using hslot)) fun _ => inferInstance
  · split <;> infer_instance

instance : Paced T (primary expression) := by
  unfold primary
  refine .seq fun next => ?_
  split <;> infer_instance

instance : Paced T (unaryWith unary expression) := by
  unfold unaryWith
  refine .seq fun index => ?_
  dsimp only
  refine .seq fun next => ?_
  split <;> infer_instance

instance : Paced T (memberLevel unary expression) := by
  unfold memberLevel
  refine .seq fun type => .loop (fun type => .seq fun isArrow => ?_) _
  split
  · refine .bind_yields inferInstance (yields_accessor expression type) fun accessed haccessed => ?_
    cases accessed with
    | called type => infer_instance
    | pending m =>
      have read : Paced T (readMember m) := paced_readMember haccessed
      dsimp only
      infer_instance
  · infer_instance

instance (operators : List Kind) (operand : Walk ValueType) [Paced T operand] :
    Paced T (binaryLevel operators operand) := by
  unfold binaryLevel
  refine .seq fun type => .loop (fun left => .seq fun next => ?_) _
  split <;> infer_instance

end Nested

theorem paced_upTo (n : Nat) : Paced T (unaryUpTo n) ∧ Paced T (expressionUpTo n) := by
  induction n with
  | zero => exact ⟨.broken, .broken⟩
  | succ n ih =>
    obtain ⟨hunary, hexpression⟩ := ih
    obtain ⟨-, _⟩ := respects_upTo (g := .plain) (b := 0) n
    have := hunary.respects
    have := hexpression.respects
    exact ⟨inferInstanceAs (Paced T (unaryWith (unaryUpTo n) (expressionUpTo n))),
      inferInstanceAs (Paced T (expressionWith (unaryUpTo n) (expressionUpTo n)))⟩

instance : Paced T unary := by
  unfold unary
  exact .seq fun n => (paced_upTo _).1

instance : Paced T expression := by
  unfold expression
  exact .seq fun n => (paced_upTo _).2

/-! ### Places -/

theorem Yields.loop {turn : α → Walk (Turn α β)} {q : β → Prop}
    (h : ∀ a, Yields T (turn a) fun r => ∀ b, r = .done b → q b)
    (hr : ∀ a, Respects .any 0 (turn a))
    (a : α) : Yields T (loop a turn) q := by
  have turns : ∀ n a, Yields T (iterate turn n a) q := by
    intro n
    induction n with
    | zero => exact fun a => .of_ne_ok fun _ _ _ h => by cases h
    | succ n ih =>
      intro a
      refine .bind (h a) (fun r hdone => ?_) (.rest hr n)
      cases r with
      | again a => exact ih a
      | done b => exact .pure (hdone b rfl)
  unfold Walk.loop
  exact .after (fun n => turns _ a) fun n => .iterate hr _ a

instance : Paced T memberPlace := by
  unfold memberPlace
  refine .seq fun type => .loop (fun type => ?_) _
  refine .seq fun index => ?_
  refine .bind_yields inferInstance (yields_accessor expression type) fun accessed haccessed => ?_
  cases accessed with
  | called type => infer_instance
  | pending m =>
    have read : Paced T (readMember m) := paced_readMember haccessed
    dsimp only
    infer_instance

theorem yields_memberPlace : Yields T memberPlace (Place.Sound T) := by
  unfold memberPlace
  refine .after (fun type => .loop (fun type => ?_) (fun type => ?_) type) fun type =>
    .loop (fun type => ?_) type
  · refine .after fun index => .bind (yields_accessor expression type) fun accessed haccessed => ?_
    cases accessed with
    | called type =>
      exact .after fun isArrow => .ite (fun _ => .pure nofun) fun _ => yields_errorAt _ _ _ _
    | pending m =>
      refine .after fun isArrow => .ite (fun _ => .after fun type => .pure nofun) fun _ => .pure ?_
      rintro _ ⟨⟩
      exact haccessed
  all_goals
    refine .seq fun index => .seq fun accessed => ?_
    split <;> infer_instance

instance (path : List Token) (index : Nat) (isIndexed : Bool) :
    Paced T (placeOf path index id isIndexed) := by
  unfold placeOf
  refine .seq fun traits => ?_
  dsimp only
  infer_instance

theorem yields_placeOf (hid : T.IsVar id) (path : List Token) (index : Nat) (isIndexed : Bool) :
    Yields T (placeOf path index id isIndexed) (Place.Sound T) := by
  have place : ∀ type : ValueType, Yields T
      (if isIndexed then return .element id type.element else return .plain id type : Walk Place)
      (Place.Sound T) := fun type => .ite (fun _ => .pure hid) fun _ => .pure hid
  unfold placeOf
  refine .after fun traits => .after fun isEmitting => .ite (fun _ => ?_) fun _ => place _
  refine .ite (fun _ => .after fun _ => ?_) fun _ => ?_
  all_goals exact .ite (fun _ => .after fun _ => place _) fun _ => place _

theorem yields_variablePlace : Yields T variablePlace (Place.Sound T) := by
  unfold variablePlace
  refine .after fun index => .after fun path => ?_
  refine .bind (yields_resolvePath path isVariable) fun found hfound => ?_
  cases found with
  | none =>
    have place : Yields T (do if ← emitting then undeclared index path else return .unknown)
        (Place.Sound T) :=
      .after fun isEmitting => .ite (fun _ => yields_errorAt _ _ _ _) fun _ => .pure True.intro
    exact .after fun isIndexed => .ite (fun _ => .after fun _ => place) fun _ => place
  | some id =>
    have place : ∀ isIndexed, Yields T (placeOf path index id isIndexed) (Place.Sound T) :=
      yields_placeOf (isVar_of_leads hfound rfl) _ _
    exact .after fun isIndexed => .ite (fun _ => .after fun _ => place _) fun _ => place _

instance : Paced T assignmentPlace := by
  unfold assignmentPlace
  infer_instance

theorem yields_assignmentPlace : Yields T assignmentPlace (Place.Sound T) := by
  unfold assignmentPlace
  refine .after fun pos => .after fun count => ?_
  have place : Yields T (do
      if ← view fun s => arrowAhead s.tokens pos then memberPlace else variablePlace)
        (Place.Sound T) :=
    .after fun isMember => .ite (fun _ => yields_memberPlace) fun _ => yields_variablePlace
  exact .ite (fun _ => .after fun _ => place) fun _ => place

/-! ### Simple statements -/

theorem paced_compoundValue {place : Place} (hplace : place.Sound T) (op : Kind) (index : Nat) :
    Paced T (compoundValue place op index) := by
  have load := paced_loadPlace hplace
  unfold compoundValue
  infer_instance

theorem paced_assignedValue {place : Place} (hplace : place.Sound T) (kind : Kind) (index : Nat) :
    Paced T (assignedValue place kind index) := by
  have compound := paced_compoundValue hplace
  unfold assignedValue
  split <;> infer_instance

instance : Paced T assignment := by
  unfold assignment
  refine .bind_yields inferInstance yields_assignmentPlace fun place hplace => ?_
  have value := paced_assignedValue hplace
  have store := paced_storePlace hplace
  refine .seq fun index => .seq fun next => ?_
  split <;> infer_instance

theorem isReference_one (type : ValueType) : (one type).isReference = false := by
  unfold one
  split <;> rfl

theorem paced_stepByOne {place : Place} (hplace : place.Sound T) (op : Kind) :
    Paced T (stepByOne place op) := by
  have load := paced_loadPlace hplace
  have store := paced_storePlace hplace
  have push : ∀ type : ValueType, Paced T (emitFor type .push [one type]) := fun type =>
    paced_emitFor (by simpa using isValue_of_literal (isReference_one type)) _ _
  unfold stepByOne
  infer_instance

theorem paced_stepPlace {place : Place} (hplace : place.Sound T) (op : Kind) :
    Paced T (stepPlace place op) := by
  have steps := paced_stepByOne hplace op
  unfold stepPlace
  cases place with
  | plain id type =>
    have step : Paced T (do
        let opcode ← opcodeFor type (stepOperation op)
        emit opcode [← slot id]) := by
      refine .bind_yields inferInstance (yields_opcodeFor _ _) fun opcode hop => ?_
      refine .bind_yields inferInstance (yields_slot hplace) fun slot hslot => ?_
      exact paced_emitOrdinary hop (by simpa using hslot)
    infer_instance
  | _ => infer_instance

instance (form : Form) : Paced T (formStatement form) := by
  unfold formStatement
  cases form with
  | step =>
    refine .bind_yields inferInstance yields_assignmentPlace fun place hplace => ?_
    have step := paced_stepPlace hplace
    infer_instance
  | _ => infer_instance

instance : Paced T simpleStatement := by
  unfold simpleStatement
  refine .seq fun op => ?_
  split
  · refine .seq fun _ => ?_
    exact .bind_yields inferInstance yields_assignmentPlace fun place hplace =>
      paced_stepPlace hplace _
  · infer_instance

theorem paced_repeatCount {limit : Nat} (hlimit : T.IsVar limit) : Paced T (repeatCount limit) := by
  unfold repeatCount
  refine .seq fun _ => .seq fun index => .seq fun type => ?_
  have rest : Paced T (do
      expectMark .closeParen
      let slot ← slot limit
      if type = .int then emit (.pop (.numeric .int)) [slot]
      else
        popInto type .int .op1
        emit (.mov (.numeric .int)) [slot, op1]) := by
    refine .seq fun _ => .bind_yields inferInstance (yields_slot hlimit) fun slot hslot => ?_
    have pop : Paced T (emit (.pop (.numeric .int)) [slot]) :=
      paced_emitOrdinary rfl (by simpa using hslot)
    have mov : Paced T (emit (.mov (.numeric .int)) [slot, op1]) :=
      paced_emitOrdinary rfl (by simpa [op1] using ⟨hslot, True.intro⟩)
    infer_instance
  infer_instance

instance (type : ValueType) : Paced T (caseLabel type) := by
  unfold caseLabel
  refine .seq fun literal => ?_
  split
  · infer_instance
  · refine .seq fun index => .seq fun path => ?_
    refine .seq fun found => ?_
    split
    · refine .seq fun _ => .seq fun x => ?_
      split <;> infer_instance
    · infer_instance

theorem yields_caseLabel (type : ValueType) : Yields T (caseLabel type) (IsValue T) := by
  unfold caseLabel
  refine .after fun literal => ?_
  split
  · exact yields_literalOperand _ _
  · refine .after fun index => .after fun path => .after fun found => ?_
    split
    · refine .after fun _ => .after fun x => ?_
      split
      · exact yields_literalOperand _ _
      · exact .pure True.intro
    · exact .after fun isEmitting => .ite (fun _ => yields_errorAt _ _ _ _) fun _ =>
        .pure True.intro

instance : Paced T gotoStateStatement := by
  unfold gotoStateStatement
  refine .seq fun _ => .seq fun _ => .seq fun index => ?_
  refine .seq fun path => ?_
  refine .bind_yields inferInstance
    (yields_resolvePath path (·.kind.isState)) fun found hfound => ?_
  dsimp only
  split
  · next id =>
    -- Only states pass the filter.
    have hstate : T.IsState id := by
      obtain ⟨t, hgrows, x, hx, hfilter⟩ := hfound id rfl
      have hsort : x.kind.isState = true := hfilter
      cases hkind : x.kind with
      | state engine editor =>
        exact hgrows.isState ⟨engine, editor, Table.kind?_eq_some.2 ⟨x, hx, hkind⟩⟩
      | _ =>
        rw [hkind] at hsort
        cases hsort
    have goto : Paced T (emit .gotoState [.symbol id]) :=
      paced_emit_symbol .gotoState id hstate (by simp)
    infer_instance
  · infer_instance

instance (priority := high) {f : Bool → Walk Unit} [h : ∀ isDebug, Paced T (f isDebug)] :
    Paced T (view (·.flags.debug) >>= fun isDebug => expectMark .kwBreakpoint >>= fun _ =>
      f isDebug) where
  respects :=
    have := fun isDebug => (h isDebug).respects
    inferInstance
  run s := Paced.run (x := expectMark .kwBreakpoint >>= fun _ => f s.flags.debug) s

end StateScript.Walk
