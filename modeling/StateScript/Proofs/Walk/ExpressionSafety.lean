import StateScript.Proofs.Walk.Safety

/-! # Expressions do not break off

  Every level of nesting but every second takes a token before what is nested starts. So an
  operand that starts at or after the token `b` gets by with a budget of twice the tokens from
  there on and one, and an expression with one more (`takes_upTo`).
-/

namespace StateScript.Walk

variable {args : List Argument} {id : Nat} {wanted : ValueType}

set_option synthInstance.maxSize 1000000000

variable {α β : Type} {c b n : Nat} {ids : List Nat}

/-! ### Literals, conversions and operators -/

instance (t : Token) (type : ValueType) : Safe c b 0 ids (literalOperand t type) := by
  unfold literalOperand
  split
  · infer_instance
  · split <;> infer_instance

/-- A literal is followed by a token that ends it, and so lies in front of the end. -/
instance (ends : List Kind) : Safe c b 0 ids (foldedLiteral? ends) := by
  unfold foldedLiteral?
  refine .seq fun isNegative => ⟨fun s hs => ?_⟩
  rw [position_bind]
  unfold tokenAt
  rw [view_bind, view_bind]
  cases s.tokens[s.pos + isNegative.toNat]? with
  | none => exact Safe.run s hs
  | some t =>
    cases hnext : s.tokens[s.pos + isNegative.toNat + 1]? with
    | none =>
      have nothing : Safe c b 0 ids (pure none : Walk (Option Token)) := inferInstance
      exact nothing.run s hs
    | some next =>
      -- Behind the literal there is another token.
      have hlt := hs.sane.lt_of_token hnext
      have honward : s.pos ≤ s.pos + isNegative.toNat + 1 := by omega
      dsimp only [Option.map_some]
      split
      · exact .ok { hs.sane with pos := Nat.le_of_lt hlt } honward (Nat.le_refl _) trivial
      · exact Safe.run s hs

instance (op : Kind) (type : ValueType) : Safe c b 0 ids (binaryOpcode op type) := by
  unfold binaryOpcode
  split <;> infer_instance

instance (index : Nat) (op : Kind) (type : ValueType) :
    Takes c b n ids (invalidOperator index op type : Walk α) :=
  inferInstanceAs (Takes c b n ids (errorAt _ _ _))

instance (op : Kind) (type : ValueType) : Safe c b 0 ids (prefixOpcode op type) := by
  unfold prefixOpcode
  split <;> infer_instance

/-- The variable of a place, whose storage is looked up. -/
def Place.symbols : Place → List Nat
  | .plain id _ | .element id _ | .member id _ _ => [id]
  | .unknown => []

instance (place : Place) (value : ValueType) (index : Nat) :
    Safe c b 0 (place.symbols ++ ids) (storePlace place value index) := by
  unfold storePlace
  refine .seq fun isEmitting => ?_
  split
  · cases place with
    | plain id type =>
      show Safe c b 0 ([id] ++ ids) _
      infer_instance
    | element id type =>
      show Safe c b 0 ([id] ++ ids) _
      infer_instance
    | member id type isIndexed =>
      show Safe c b 0 ([id] ++ ids) _
      infer_instance
    | unknown =>
      dsimp only
      infer_instance
  · infer_instance

instance (place : Place) : Safe c b 0 (place.symbols ++ ids) (loadPlace place) := by
  unfold loadPlace
  cases place with
  | plain id type =>
    show Safe c b 0 ([id] ++ ids) _
    infer_instance
  | element id type =>
    show Safe c b 0 ([id] ++ ids) _
    infer_instance
  | member id type isIndexed =>
    show Safe c b 0 ([id] ++ ids) _
    infer_instance
  | unknown =>
    dsimp only
    infer_instance

instance (op : Kind) (left right : ValueType) (index : Nat) :
    Safe c b 0 ids (binary op left right index) := by
  unfold binary
  dsimp only
  infer_instance

instance (op : Kind) (type : ValueType) (index : Nat) :
    Safe c b 0 ids (unaryOperator op type index) := by
  unfold unaryOperator
  dsimp only
  infer_instance

/-! ### Types and calls -/

instance : Takes c b 0 ids typeSpecifier := by
  unfold typeSpecifier
  refine .peek (inferInstanceAs (Takes c b 0 ids (unexpected _))) fun kind => ?_
  rw [Option.bind_some]
  cases kind.primitive? with
  | none => exact inferInstanceAs (Takes c b 1 ids (unexpected _))
  | some primitive =>
    -- Both brackets are known before they are taken.
    have brackets : Safe c (b + 1) 0 ids
        (check .openBracket >>= fun isOpen => peekAt 1 >>= fun next =>
        if (isOpen && next == some .closeBracket) = true then
          (skip >>= fun _ => skip >>= fun _ => pure (ValueType.array primitive) : Walk ValueType)
        else pure (.scalar primitive)) := by
      refine ⟨fun s hs => .pair _ _ hs (fun hs => ?_) (Safe.run s hs)⟩
      have both : Takes c (b + 1) 2 ids
          (skip >>= fun _ => skip >>= fun _ => pure (ValueType.array primitive) : Walk ValueType) :=
        inferInstance
      exact (both.run s hs).mono fun _ _ _ _ => trivial
    dsimp only
    infer_instance

instance : Safe c b 0 ids castAhead := by
  unfold castAhead
  refine .seq fun next => ?_
  split
  · refine .seq fun after => ?_
    split <;> infer_instance
  · infer_instance

instance : Stays castAhead := by
  unfold castAhead
  refine .bind inferInstance fun next => ?_
  split
  · refine .bind inferInstance fun after => ?_
    split <;> infer_instance
  · infer_instance

instance (types : List ValueType) : Safe c b 0 ids (castArguments args types) := by
  unfold castArguments
  exact .forM fun _ => inferInstance

def Signature.symbols (all : List Signature) : List Nat := all.map (·.id)

instance (path : List Token) : Provides c b ids (signatures path) Signature.symbols := by
  unfold signatures
  refine .provided inferInstance fun found => ?_
  have hfound : ∀ s : State, (∀ id ∈ found ++ ids, id < s.table.size) → ∀ id ∈ found,
      id < s.table.size :=
    fun s known id hid => known id (List.mem_append_left _ hid)
  refine .bind (.ensure fun s _ known => State.knows_iff.2 (hfound s known)) fun _ => ?_
  refine .view fun s _ known id hid => ?_
  obtain ⟨signature, hsignature, rfl⟩ := List.mem_map.1 hid
  obtain ⟨id, hmem, hsome⟩ := List.mem_filterMap.1 hsignature
  obtain ⟨x, -, hsome⟩ := Option.bind_eq_some_iff.1 hsome
  obtain ⟨f, -, hsome⟩ := Option.bind_eq_some_iff.1 hsome
  cases hsome
  exact hfound s known id hmem

instance (all : List Signature) (path : List Token) (index : Nat) :
    Safe c b 0 (Signature.symbols all ++ ids) (chosenCall args all path index) := by
  unfold chosenCall
  dsimp only
  split
  · infer_instance
  · next chosen hchosen =>
    have held : Held (Signature.symbols all ++ ids) chosen.id :=
      .of_mem (List.mem_append_left _ (List.mem_map_of_mem (mem_of_chooseOverload hchosen)))
    infer_instance

instance (index : Nat) (path : List Token) : Takes c b n ids (undeclared index path : Walk α) :=
  inferInstanceAs (Takes c b n ids (errorAt _ _ _))

instance (index : Nat) (path : List Token) : Takes c b n ids (notArray index path : Walk α) :=
  inferInstanceAs (Takes c b n ids (errorAt _ _ _))

/-- A step that is ahead can be taken. -/
instance (priority := high) {f : Option Kind → Walk α} [hnone : Safe c b 0 ids (f none)]
    [hsome : ∀ kind, Safe c b 1 ids (f (some kind))] : Safe c b 0 ids (stepAhead >>= f) where
  run s hs := by
    unfold stepAhead
    rw [bind_assoc]
    refine .peek hs (hnone.run s hs) fun kind hs => ?_
    cases kind with
    | increment => exact (hsome .increment).run s hs
    | decrement => exact (hsome .decrement).run s hs
    | _ => exact hnone.run s (hs.fewer (Nat.zero_le _))

instance [Held ids id] (literal : Option Token) (type : ValueType) :
    Safe c b 0 ids (readingOperand id literal type) := by
  unfold readingOperand
  split <;> infer_instance

/-! ### Members -/

instance (name : String) (type : ValueType) :
    Provides c b ids (memberVariable name type) fun id => [id] := by
  unfold memberVariable
  refine .provided inferInstance fun found => ?_
  cases found with
  | some id => exact .held
  | none => infer_instance

instance (name : String) (returnType : ValueType) :
    Provides c b ids (memberFunction name returnType) fun id => [id] := by
  unfold memberFunction
  refine .provided inferInstance fun found => ?_
  cases found with
  | some id => exact .held
  | none => infer_instance

/-- The types that a first call fixes are as many as it counts. -/
instance (method : Nat) [k : Held ids method] (types : List ValueType) :
    Safe c b 0 ids (modifyFunction method fun f =>
      { f with parameterCount := types.length, parameterTypes := types, used := true }) where
  run s hs := by
    have hsize : s.table.size ≤ (s.table.modifyKind method fun k => k.mapFunction fun f =>
        { f with parameterCount := types.length, parameterTypes := types, used := true }).size :=
      Nat.le_of_eq (Table.size_modifyKind _).symm
    unfold modifyFunction
    rw [modifyKind_of_lt _ (k.lt hs.sane hs.known)]
    refine .ok (hs.sane.grow (hs.sane.table.modifyKind fun k f _ hf => ?_) hsize s.files s.history)
      (Nat.le_refl _) hsize trivial
    cases k with
    | function f₀ =>
      cases hf
      rfl
    | _ => cases hf

instance (method : Nat) [Held ids method] (name : String) (index : Nat) :
    Safe c b 0 ids (passToMethod method args name index) := by
  unfold passToMethod
  refine .seq fun x => ?_
  dsimp only
  split <;> infer_instance

def Accessed.symbols : Accessed → List Nat
  | .pending m => [m.id]
  | .called _ => []

/-! ### Rules over what is nested inside -/

section Nested

variable (unary expression : Walk ValueType)

section Rest

variable [Deeper c b 0 expression]

instance (path : List Token) (index : Nat) : Safe c b 0 ids (call expression path index) := by
  unfold call
  refine .seq fun args => .provided inferInstance fun all => ?_
  refine .seq fun isEmitting => ?_
  split
  · infer_instance
  · split <;> infer_instance

instance : Safe c b 0 ids (unknownVariable expression) := by
  have noStep : Safe c b 0 ids (if (none : Option Kind).isSome = true then
      (skip >>= fun _ => pure ValueType.invalid : Walk ValueType) else pure .invalid) :=
    inferInstanceAs (Safe c b 0 ids (pure ValueType.invalid))
  unfold unknownVariable
  infer_instance

instance (name : String) (type : ValueType) (index : Nat) :
    Provides c b ids (access expression name type index) Accessed.symbols := by
  unfold access
  refine .seq fun isCall => ?_
  split
  · exact .seq fun type => .of_pure fun _ _ _ i hi => by cases hi
  · refine .seq fun isIndexed => ?_
    have member : Provides c b ids (memberVariable name type >>= fun id =>
        (pure (.pending { id, type, isIndexed }) : Walk Accessed)) Accessed.symbols :=
      .provided inferInstance fun id => .of_pure fun _ _ known i hi =>
        known i (List.mem_append_left _ hi)
    dsimp only
    split
    · exact .seq fun _ => member
    · exact member

/-- The size of an array stands in front of its elements, but not in front of the array. -/
theorem Safe.arraySize {index : Nat} (hb : b ≤ index) (hc : index ≤ c) (count : Nat) :
    Safe c b 0 ids (arraySize expression index count) := by
  unfold Walk.arraySize
  refine .seq fun t => ?_
  split
  · infer_instance
  · exact .detour hb hc inferInstance

instance (primitive : Primitive) : Takes c b 1 ids (arrayOf expression primitive) := by
  have sized : Safe c (b + 1) 0 ids (position >>= fun index =>
      skipBalanced .openBracket .closeBracket >>= fun _ =>
      arrayElements expression (.scalar primitive) >>= fun count =>
      arraySize expression index count >>= fun _ =>
      allocateArray primitive count >>= fun _ => pure (ValueType.array primitive)) := by
    refine .position fun index hb hc => .seq fun _ => .seq fun count => ?_
    exact .bind (.arraySize expression hb hc count) fun _ => inferInstance
  unfold arrayOf
  infer_instance

end Rest

section Behind

variable [Deeper c (b + 1) 0 expression]

instance (object : ValueType) : Takes c b 0 ids (accessor expression object) := by
  unfold accessor
  refine .after inferInstance fun index => .raise inferInstance fun _ => ?_
  infer_instance

instance (object : ValueType) : Provides c b ids (accessor expression object) Accessed.symbols := by
  unfold accessor
  refine .seq fun index => .raise inferInstance fun _ => ?_
  refine .seq fun _ => .seq fun type => .seq fun _ => ?_
  refine .seq fun name => .seq fun isEmitting => ?_
  dsimp only
  split
  · exact .seq fun _ => inferInstance
  · infer_instance

instance : Takes c b 1 ids (newArray expression) := by
  unfold newArray
  refine .skip (.peek (inferInstanceAs (Safe c (b + 1) 0 ids (unexpected _))) fun kind => ?_)
  split <;> infer_instance

instance : Takes c b 0 ids (nameExpression expression) := by
  unfold nameExpression
  exact .after inferInstance fun index => .raise inferInstance fun path => inferInstance

instance : Takes c b 1 ids indexer := by
  have counter : Provides c (b + 1) ids (view (·.loops.findSome? (·.counter))) Option.toList := by
    refine .view fun s hs _ id hid => ?_
    obtain ⟨frame, hframe, hcounter⟩ := List.exists_of_findSome?_eq_some (Option.mem_toList.1 hid)
    exact hs.counters frame hframe id hcounter
  unfold indexer
  exact .stay inferInstance fun index => .skip inferInstance

instance : Takes c b 0 ids (primary expression) := by
  unfold primary
  refine .peek inferInstance fun kind => ?_
  split <;> infer_instance

end Behind

instance [Deeper c (b + 1) 0 unary] [Deeper c (b + 1) 0 expression] :
    Takes c b 0 ids (unaryWith unary expression) := by
  unfold unaryWith
  refine .after inferInstance fun index => .peek inferInstance fun kind => ?_
  dsimp only
  split <;> infer_instance

section Levels

variable {expression} [Deeper c (b + 1) 0 expression]

instance [Deeper c b 0 unary] : Takes c b 0 ids (memberLevel unary expression) := by
  unfold memberLevel
  refine .seq fun type => .loop (fun type => .seq fun isArrow => ?_) _
  split
  · have taken : Takes c b 0 ids (accessor expression type >>= fun r =>
        match r with
        | .called type => (pure (.again type) : Walk (Turn ValueType ValueType))
        | .pending m => do return .again (← readMember m)) := by
      refine .offered inferInstance inferInstance fun r => ?_
      cases r with
      | called type => infer_instance
      | pending m =>
        show Safe c b 0 ([m.id] ++ ids) _
        infer_instance
    infer_instance
  · infer_instance

end Levels

/-- Operands are nested as deep as what they are joined to. -/
theorem Deeper.binaryLevel {operators : List Kind} {operand : Walk ValueType}
    (h : Deeper c b 0 operand) : Deeper c b 0 (binaryLevel operators operand) := by
  refine ⟨fun b' hb ids => ?_⟩
  have here : Deeper c b' 0 operand := ⟨fun b'' hb' => h.takes b'' (Nat.le_trans hb hb')⟩
  unfold Walk.binaryLevel
  refine .seq fun left => .loop (fun left => .peek inferInstance fun op => ?_) _
  dsimp only
  split <;> infer_instance

end Nested

/-! ### Tying the recursion -/

theorem Deeper.expressionWith {unary expression : Walk ValueType} (hu : Deeper c b 0 unary)
    (he : Deeper c (b + 1) 0 expression) : Deeper c b 0 (expressionWith unary expression) := by
  have level : Deeper c b 0 (memberLevel unary expression) := by
    refine ⟨fun b' hb ids => ?_⟩
    have hu' : Deeper c b' 0 unary := ⟨fun b'' hb' => hu.takes b'' (Nat.le_trans hb hb')⟩
    have he' : Deeper c (b' + 1) 0 expression :=
      ⟨fun b'' hb' => he.takes b'' (Nat.le_trans (Nat.succ_le_succ hb) hb')⟩
    infer_instance
  exact .binaryLevel (.binaryLevel (.binaryLevel (.binaryLevel level)))

/-- A budget of twice the tokens ahead is enough. -/
theorem takes_upTo (n : Nat) : ∀ b, (2 * c + 1 ≤ n + 2 * b → Deeper c b 0 (unaryUpTo n)) ∧
    (2 * c + 2 ≤ n + 2 * b → Deeper c b 0 (expressionUpTo n)) := by
  induction n with
  -- The budget lasts up to the last token.
  | zero =>
    refine fun b => ⟨fun h => ⟨fun b' hb ids => ⟨fun s hs => ?_⟩⟩, fun h =>
      ⟨fun b' hb ids => ⟨fun s hs => ?_⟩⟩⟩
    all_goals
      have := hs.start
      have := hs.sane.pos
      omega
  | succ n ih =>
    refine fun b => ⟨fun h => ⟨fun b' hb ids => ?_⟩, fun h => ?_⟩
    · have hu : Deeper c (b' + 1) 0 (unaryUpTo n) := (ih (b' + 1)).1 (by omega)
      have he : Deeper c (b' + 1) 0 (expressionUpTo n) := (ih (b' + 1)).2 (by omega)
      exact inferInstanceAs (Takes c b' 0 ids (unaryWith (unaryUpTo n) (expressionUpTo n)))
    · exact .expressionWith ((ih b).1 (by omega)) ((ih (b + 1)).2 (by omega))

instance : Takes c b 0 ids unary := by
  have operand : Deeper c b 0 (unaryUpTo (2 * c + 2)) := (takes_upTo _ b).1 (by omega)
  unfold unary
  exact .tokenCount inferInstance

instance : Deeper c b 0 expression := by
  refine ⟨fun b' _ ids => ?_⟩
  have nested : Deeper c b' 0 (expressionUpTo (2 * c + 2)) := (takes_upTo _ b').2 (by omega)
  unfold expression
  exact .tokenCount inferInstance

/-! ### Places -/

theorem Provides.never {x : Walk α} {symbols : α → List Nat} [h : Never x] [hx : Safe c b 0 ids x] :
    Provides c b ids x symbols :=
  ⟨fun s hs => ((hx.run s hs).and (p := fun _ _ => False) fun a s' hrun => h.ne_ok s a s' hrun).mono
    fun _ _ _ post => post.2.elim⟩

/-- The symbols of the place that a turn may end with. -/
def Turn.placed : Turn ValueType Place → List Nat
  | .again _ => []
  | .done place => place.symbols

/-- A turn of the loop over arrows. -/
def placeTurn (index : Nat) : Accessed → Walk (Turn ValueType Place)
  | .called type => do
    if ← check .arrow then return .again type
    else errorAt index .illegalAssignment "cannot assign to the result of a method call"
  | .pending m => do
    if ← check .arrow then return .again (← readMember m)
    else return .done (.member m.id m.type m.isIndexed)

theorem memberPlace_eq : memberPlace = (unary >>= fun type => loop type fun type =>
    position >>= fun index => accessor expression type >>= placeTurn index) :=
  rfl

instance (index : Nat) (r : Accessed) :
    Provides c b (r.symbols ++ ids) (placeTurn index r) Turn.placed := by
  cases r with
  | called type =>
    refine .seq fun isArrow => ?_
    split
    · exact .of_pure fun _ _ _ i hi => by cases hi
    · exact .never
  | pending m =>
    show Provides c b ([m.id] ++ ids) _ _
    refine .seq fun isArrow => ?_
    split
    · exact .seq fun type => .of_pure fun _ _ _ i hi => by cases hi
    · exact .of_pure fun _ _ known i hi => known i (List.mem_append_left _ hi)

instance : Provides c b ids memberPlace Place.symbols := by
  rw [memberPlace_eq]
  refine .seq fun type => ⟨fun s hs => .loop hs (fun type s hs => ?_) type⟩
  have takes : Takes c b 0 ids (position >>= fun index =>
      accessor expression type >>= placeTurn index) :=
    .after inferInstance fun index => .offered inferInstance inferInstance fun r => inferInstance
  have offers : Provides c b ids
      (position >>= fun index => accessor expression type >>= placeTurn index) Turn.placed :=
    .seq fun index => .provided inferInstance fun r => inferInstance
  refine ((takes.run s hs).both (offers.run s hs)).mono fun r s' _ post => ?_
  exact ⟨fun _ _ => post.1, fun place hplace id hid => post.2 id (by rw [hplace]; exact hid)⟩

instance (path : List Token) (index : Nat) [k : Held ids id] (isIndexed : Bool) :
    Provides c b ids (placeOf path index id isIndexed) Place.symbols := by
  have element : ∀ type, Provides c b ids (pure (.element id type)) Place.symbols := fun type =>
    .of_pure fun s hs known i hi => by
      rw [List.mem_singleton.1 hi]
      exact k.lt hs known
  have plain : ∀ type, Provides c b ids (pure (.plain id type)) Place.symbols := fun type =>
    .of_pure fun s hs known i hi => by
      rw [List.mem_singleton.1 hi]
      exact k.lt hs known
  unfold placeOf
  refine .seq fun traits => ?_
  dsimp only
  infer_instance

instance : Provides c b ids variablePlace Place.symbols := by
  unfold variablePlace
  refine .seq fun index => .seq fun path => ?_
  refine .provided inferInstance fun found => .seq fun isIndexed => ?_
  have rest : Provides c b (found.toList ++ ids) (match found with
      | none => do
        if ← emitting then undeclared index path
        else return .unknown
      | some id => placeOf path index id isIndexed : Walk Place) Place.symbols := by
    cases found with
    | none =>
      refine .seq fun isEmitting => ?_
      split
      · exact .never
      · exact .of_pure fun _ _ _ i hi => by cases hi
    | some id => infer_instance
  infer_instance

/-- The cursor does not stand behind the end. -/
theorem Fine.inside {f : Nat → Walk α} {q : α → State → Prop} {s : State} (hs : Starts c b n ids s)
    (h : Fine c b s q (f s.pos s)) : Fine c b s q ((do
      let pos ← position
      if (← tokenCount) < pos then throw .broken
      f pos : Walk α) s) := by
  have hle : ¬s.tokens.size < s.pos := by
    rw [hs.sane.count]
    exact Nat.not_lt_of_le hs.sane.pos
  show Fine c b s q ((if s.tokens.size < s.pos then throw .broken >>= fun _ => f s.pos
    else f s.pos : Walk α) s)
  rw [if_neg hle]
  exact h

instance : Provides c b ids assignmentPlace Place.symbols := by
  unfold assignmentPlace
  exact ⟨fun s hs => .inside hs (Provides.run s hs)⟩

end StateScript.Walk
