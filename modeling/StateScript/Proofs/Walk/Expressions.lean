import StateScript.Proofs.Walk.Primitives

/-! # What expressions leave alone

  Expressions, the places that assignments write to, and the simple statements are
  `plain`: they declare nothing, bind no target and make code in the current function
  only. What makes no code at all is of every grade.
-/

namespace StateScript.Walk

set_option synthInstance.maxSize 1000000000

variable {α β : Type} {g : Grade} {b id : Nat} {args : List Argument} {wanted : ValueType}

/-! ### Literals, conversions and operators -/

instance [g.Within .idle] (t : Token) (type : ValueType) :
    Respects g b (literalOperand t type) := by
  unfold literalOperand
  split
  · infer_instance
  · split <;> infer_instance

instance (ends : List Kind) : Respects g b (foldedLiteral? ends) := by
  unfold foldedLiteral?
  refine .seq fun isNegative => .position fun n => .seq fun t => .seq fun next => ?_
  split
  · split <;> infer_instance
  · infer_instance

instance (op : Kind) (type : ValueType) : Respects g b (binaryOpcode op type) := by
  unfold binaryOpcode
  split <;> infer_instance

instance (op : Kind) (type : ValueType) : Respects g b (prefixOpcode op type) := by
  unfold prefixOpcode
  split <;> infer_instance

/-! ### Conversions of arguments -/

section Patching

variable [g.Within .patching]

instance (types : List ValueType) : Respects g b (castArguments args types) := by
  unfold castArguments
  have each : ∀ x : Argument × ValueType, Respects g b (castArgument x.1 x.2) := inferInstance
  infer_instance

instance (all : List Signature) (path : List Token) (index : Nat) :
    Respects g b (chosenCall args all path index) := by
  unfold chosenCall
  dsimp only
  split <;> infer_instance

/-- The first call of a method finds it unused, and so may fix its parameters. -/
instance (method : Nat) (name : String) (index : Nat) :
    Respects g b (passToMethod method args name index) where
  run s hpos := by
    unfold passToMethod
    dsimp only
    cases hx : s.table.get? method with
    | none =>
      have hrun : symbol method s = .error .broken s := by
        unfold symbol
        rw [hx]
      rw [bind_of_error hrun]
      exact Keeps.broken hpos
    | some x =>
      have hrun : symbol method s = .ok x s := by
        unfold symbol
        rw [hx]
      rw [bind_of_ok hrun]
      cases hf : x.kind.function? with
      | none => exact Keeps.same hpos
      | some f =>
        dsimp only
        split
        · exact Respects.run s hpos
        · next hused =>
          -- The types are fixed in a function that nothing has called yet, so it may grow.
          refine .changed hpos
            (.mapFunction s hpos (fun x₀ hx₀ => ?_) (fun _ _ => rfl) fun _ => rfl)
          obtain ⟨x', hx', hkind⟩ := Table.kind?_eq_some.1 hx₀
          cases hx.symm.trans hx'
          rw [hkind] at hf
          cases hf
          exact .ofFunction rfl rfl fun h => absurd h hused
  alike := by
    intro F G
    unfold passToMethod
    refine .bind (Respects.alike .any) fun x => ?_
    dsimp only
    split
    · split
      · exact Respects.alike .patching
      · exact .modifyKind _
    · exact Respects.alike .any

end Patching

/-- Of the current function the first `n` instructions stay, and of others all. No target
    is bound, and none that was bound within the first `n` instructions is disturbed. -/
structure Spared (n : Nat) (s s' : State) : Prop where
  first : (s.table.code s.function).take n <+: s'.table.code s.function
  others : ∀ id, id ≠ s.function → s.table.code id <+: s'.table.code id
  history : ∃ new, s'.history = new ++ s.history ∧
    Carries false (BoundWithin s.function n) s.table s'.table new

class Spares (n : Nat) (x : Walk α) : Prop where
  function : ∀ s, (final (x s)).function = s.function
  run : ∀ s, n ≤ (s.table.code s.function).length → Spared n s (final (x s))

section Sparing

variable {n : Nat} {s s₁ s₂ : State} {x : Walk α} {f : α → Walk β}

theorem Spared.same : Spared n s s :=
  ⟨List.take_prefix .., fun _ _ => List.prefix_rfl, [], rfl, .none (fun _ => rfl) fun _ => rfl⟩

theorem Spared.take_eq (h : Spared n s s₁) (hn : n ≤ (s.table.code s.function).length) :
    (s.table.code s.function).take n = (s₁.table.code s.function).take n := by
  have heq := List.prefix_iff_eq_take.1 h.first
  rwa [List.length_take, Nat.min_eq_left hn] at heq

theorem Spared.le_length (h : Spared n s s₁) (hn : n ≤ (s.table.code s.function).length) :
    n ≤ (s₁.table.code s.function).length := by
  have hlength := h.first.length_le
  rwa [List.length_take, Nat.min_eq_left hn] at hlength

theorem Spared.trans (h : Spared n s s₁) (hn : n ≤ (s.table.code s.function).length)
    (hfunction : s₁.function = s.function) (h₁ : Spared n s₁ s₂) : Spared n s s₂ where
  first := by
    rw [h.take_eq hn, ← hfunction]
    exact h₁.first
  others id hid := (h.others id hid).trans (h₁.others id (hfunction.symm ▸ hid))
  history := by
    obtain ⟨new, hnew, hpart⟩ := h.history
    obtain ⟨new₁, hnew₁, hpart₁⟩ := h₁.history
    refine ⟨new₁ ++ new, by rw [hnew₁, hnew, List.append_assoc], hpart.trans hpart₁ ?_⟩
    rw [hfunction]
    exact fun _ _ _ hold => hpart.boundWithin hold

instance (priority := low) [hx : Respects .plain 0 x] : Spares n x where
  function s := (hx.run s (Nat.zero_le _)).function
  run s _ := by
    have hkeeps := hx.run s (Nat.zero_le _)
    have h := hkeeps.code rfl
    obtain ⟨new, hnew, hpart⟩ := hkeeps.history
    exact ⟨(List.take_prefix ..).trans (h _), fun id _ => h id, new, hnew,
      hpart.weaken (fun _ => rfl) fun _ _ => rfl⟩

theorem Spares.bind (hx : Spares n x) (hf : ∀ a, Spares n (f a)) : Spares n (x >>= f) where
  function s := by
    have h := hx.function s
    cases hrun : x s with
    | ok a s₁ =>
      rw [hrun] at h
      rw [bind_of_ok hrun]
      exact ((hf a).function s₁).trans h
    | error e s₁ =>
      rw [hrun] at h
      rw [bind_of_error hrun]
      exact h
  run s hn := by
    have h := hx.run s hn
    have hfunction := hx.function s
    cases hrun : x s with
    | ok a s₁ =>
      rw [hrun] at h hfunction
      rw [bind_of_ok hrun]
      exact h.trans hn hfunction ((hf a).run s₁ (hfunction.symm ▸ h.le_length hn))
    | error e s₁ =>
      rw [hrun] at h
      rw [bind_of_error hrun]
      exact h

instance [hx : Spares n x] [hf : ∀ a, Spares n (f a)] : Spares n (x >>= f) := hx.bind hf

instance (c : Prop) [Decidable c] (y : Walk α) [hx : Spares n x] [hy : Spares n y] :
    Spares n (if c then x else y) := by
  split
  · exact hx
  · exact hy

theorem Spares.forM {xs : List α} {f : α → Walk Unit} (h : ∀ a ∈ xs, Spares n (f a)) :
    Spares n (xs.forM f) := by
  induction xs with
  | nil => exact inferInstanceAs (Spares n (pure ()))
  | cons a xs ih =>
    exact Spares.bind (h a List.mem_cons_self) fun _ => ih fun a ha =>
      h a (List.mem_cons_of_mem _ ha)

theorem Spares.emitAt {place : Nat} (hplace : n ≤ place) (op : Opcode) (operands : List Operand) :
    Spares n (emitAt place op operands) where
  function s :=
    have patching : Respects .patching 0 (Walk.emitAt place op operands) := inferInstance
    (patching.run s (Nat.zero_le _)).function
  run s hn := by
    have patching : Respects .patching 0 (Walk.emitAt place op operands) := inferInstance
    have hothers := ((patching.run s (Nat.zero_le _)).plain (by decide)).2.2.2.2
    rcases s.pass_cases with hpass | hpass
    · rw [emitAt_of_declare place op operands hpass]
      exact .same
    · rcases emitAt_of_emit place op operands hpass with hrun | hrun <;> rw [hrun] at hothers ⊢
      · refine ⟨?_, fun id hid => hothers id hid ▸ List.prefix_rfl,
          carries_emit false s op operands _ ?_⟩
        · show _ <+: (s.emit op operands (some place)).table.code s.function
          rcases code_emit_insertAt s op operands place with ⟨hcode, -⟩ | hcode <;> rw [hcode]
          · exact List.take_prefix ..
          -- The instruction goes behind the first `n`.
          · exact (List.take_prefix_take_left hplace).trans (List.prefix_append ..)
        · rintro old hold _ ⟨⟩ target bound hbind
          exact Nat.le_trans (hold target bound hbind) hplace
      · exact .same

/-- Conversions spare what stands in front of the ends of all arguments. -/
theorem Spares.castArguments (hargs : ∀ arg ∈ args, n ≤ arg.stop) (types : List ValueType) :
    Spares n (castArguments args types) := by
  unfold Walk.castArguments
  refine .forM fun x hx => ?_
  have hstop := hargs _ (List.of_mem_zip (List.mem_reverse.1 hx)).1
  have pop := fun op => Spares.emitAt hstop op [op1]
  have cast := fun op => Spares.emitAt (Nat.le_succ_of_le hstop) op [op1]
  have push := fun op => Spares.emitAt (Nat.le_succ_of_le (Nat.le_succ_of_le hstop)) op [op1]
  infer_instance

theorem Spares.chosenCall (hargs : ∀ arg ∈ args, n ≤ arg.stop) (all : List Signature)
    (path : List Token) (index : Nat) : Spares n (chosenCall args all path index) := by
  have casts := Spares.castArguments hargs
  unfold Walk.chosenCall
  dsimp only
  split <;> infer_instance

theorem Spares.modifyKind {h : SymbolKind → SymbolKind}
    (hcode : ∀ k, (h k).instructions = k.instructions)
    (hbound : ∀ k, (h k).bound? = k.bound?) : Spares n (modifyKind id h) where
  function s := by
    rcases modifyKind_cases id h s with hrun | hrun <;> rw [hrun] <;> rfl
  run s _ := by
    have hsame : ∀ j, (s.table.modifyKind id h).code j = s.table.code j := fun j =>
      Table.code_modifyKind fun k => by rw [SymbolKind.code_eq, SymbolKind.code_eq, hcode]
    rcases modifyKind_cases id h s with hrun | hrun <;> rw [hrun]
    · exact ⟨hsame _ ▸ List.take_prefix .., fun j _ => hsame j ▸ List.prefix_rfl, [], rfl,
        .modifyKind hcode hbound⟩
    · exact .same

theorem Spares.passToMethod (hargs : ∀ arg ∈ args, n ≤ arg.stop) (method : Nat) (name : String)
    (index : Nat) : Spares n (passToMethod method args name index) := by
  have casts := Spares.castArguments hargs
  have fix : Spares n (modifyFunction method fun f => { f with
      parameterCount := (args.map (·.type)).length, parameterTypes := args.map (·.type),
      used := true }) :=
    .modifyKind (fun k => by cases k <;> rfl) fun k => by cases k <;> rfl
  unfold Walk.passToMethod
  dsimp only
  refine .bind inferInstance fun x => ?_
  split <;> infer_instance

/-! Arguments -/

theorem here_eq_length (s : State) : s.here = (s.table.code s.function).length := by
  rw [here_eq_size, Table.code_eq, List.length_map, Array.length_toList]

theorem argument_eq_ok {expression : Walk ValueType} {arg : Argument}
    (h : argument expression s = .ok arg s₁) :
    expression s = .ok arg.type s₁ ∧ arg.stop = (s₁.table.code s₁.function).length := by
  obtain ⟨type, s', hexpression, h⟩ := bind_eq_ok.1 h
  obtain ⟨place, s'', hhere, h⟩ := bind_eq_ok.1 h
  cases h
  obtain ⟨-, hhere⟩ := ensure_bind_eq_ok hhere
  cases hhere
  exact ⟨hexpression, here_eq_length _⟩

/-- The code of a function gets no shorter. -/
theorem Keeps.length_le {e : Option Stop} (h : Keeps .adding b e s s₁) :
    (s.table.code s.function).length ≤ (s₁.table.code s₁.function).length := by
  rw [h.function]
  exact (h.code rfl _).length_le

/-- No argument ends in front of the call. -/
theorem Listed.le_stop {expression : Walk ValueType} [hexpression : Respects .adding b expression]
    (h : Listed (argument expression) s args s₁) (hpos : b ≤ s.pos) :
    ∀ arg ∈ args, (s.table.code s.function).length ≤ arg.stop := by
  induction h with
  | last ha =>
    intro arg harg
    rw [List.mem_singleton] at harg
    subst harg
    obtain ⟨hrun, hstop⟩ := argument_eq_ok ha
    exact hstop ▸ (hexpression.ok hpos hrun).length_le
  | more ha hcomma _ ih =>
    obtain ⟨hrun, hstop⟩ := argument_eq_ok ha
    have hkeeps := hexpression.ok hpos hrun
    have comma : Respects .adding b (eat .comma) := inferInstance
    have hkeeps' := hkeeps.trans (comma.ok (hkeeps.onward (.inl rfl)) hcomma)
    intro arg harg
    rcases List.mem_cons.1 harg with rfl | harg
    · exact hstop ▸ hkeeps.length_le
    · exact Nat.le_trans hkeeps'.length_le (ih (hkeeps'.onward (.inl rfl)) arg harg)

theorem le_stop_of_arguments {expression : Walk ValueType}
    [hexpression : Respects .adding b expression]
    (h : arguments expression s = .ok args s₁) (hpos : b ≤ s.pos) :
    ∀ arg ∈ args, (s.table.code s.function).length ≤ arg.stop := by
  obtain ⟨_, s', hopen, h⟩ := bind_eq_ok.1 h
  obtain ⟨items, s'', hitems, h⟩ := bind_eq_ok.1 h
  obtain ⟨_, s₃, hclose, h⟩ := bind_eq_ok.1 h
  cases h
  have mark : Respects .adding b (expectMark .openParen) := inferInstance
  have hkeeps := mark.ok hpos hopen
  unfold separatedUnless at hitems
  obtain ⟨isEmpty, s₂, hcheck, hitems⟩ := bind_eq_ok.1 hitems
  cases hcheck
  split at hitems
  · cases hitems
    simp
  · exact fun arg harg => Nat.le_trans hkeeps.length_le
      ((listed_of_separated hitems).le_stop (hkeeps.onward (.inl rfl)) arg harg)

/-- What comes behind the arguments puts code behind what was there before them. -/
theorem code_of_arguments {expression : Walk ValueType} [hexpression : Respects .plain b expression]
    {f : List Argument → Walk α} (hf : ∀ n args, (∀ arg ∈ args, n ≤ arg.stop) → Spares n (f args))
    (hpos : b ≤ s.pos) :
    (∀ id, s.table.code id <+: (final ((arguments expression >>= f) s)).table.code id) ∧
      ∃ new, (final ((arguments expression >>= f) s)).history = new ++ s.history ∧
        Carries false (fun _ => True) s.table (final ((arguments expression >>= f) s)).table
          new := by
  have args : Respects .plain b (arguments expression) := inferInstance
  have : Respects .adding b expression := hexpression.weaken
  cases hrun : arguments expression s with
  | error e s₁ =>
    have hkeeps := args.error hpos hrun
    obtain ⟨new, hnew, hpart⟩ := hkeeps.history
    rw [bind_of_error hrun]
    exact ⟨hkeeps.code rfl, new, hnew, hpart.weaken id fun _ _ => rfl⟩
  | ok args' s₁ =>
    have hkeeps := args.ok hpos hrun
    have hstart := hkeeps.code rfl
    have hspared := (hf _ args' (le_stop_of_arguments hrun hpos)).run s₁
      (hkeeps.function.symm ▸ (hstart _).length_le)
    rw [bind_of_ok hrun]
    refine ⟨fun id => ?_, ?_⟩
    · by_cases hid : id = s.function
      · have hfirst := hspared.first
        rw [hkeeps.function, ← List.prefix_iff_eq_take.1 (hstart s.function)] at hfirst
        exact hid ▸ hfirst
      · exact (hstart id).trans (hspared.others id (hkeeps.function.symm ▸ hid))
    · obtain ⟨new, hnew, hpart⟩ := hkeeps.history
      obtain ⟨new₁, hnew₁, hpart₁⟩ := hspared.history
      refine ⟨new₁ ++ new, by rw [hnew₁, hnew, List.append_assoc],
        (hpart.weaken id fun _ _ => rfl).trans hpart₁ fun old htells hold _ => ?_⟩
      -- All targets so far are bound in front of the arguments, whose code binds none.
      rw [hkeeps.function]
      refine hpart.boundWithin fun target place hbind => ?_
      have hsize := hold.le_size hbind
      rwa [htells.code, ← Array.length_toList, ← List.length_map (f := Instruction.op),
        ← Table.code_eq] at hsize

end Sparing

section Plain

variable [g.Within .plain]

instance (place : Place) (value : ValueType) (index : Nat) :
    Respects g b (storePlace place value index) := by
  unfold storePlace
  cases place <;> dsimp only <;> infer_instance

instance (place : Place) : Respects g b (loadPlace place) := by
  unfold loadPlace
  cases place <;> dsimp only <;> infer_instance

instance (op : Kind) (left right : ValueType) (index : Nat) :
    Respects g b (binary op left right index) := by
  unfold binary
  infer_instance

instance (op : Kind) (type : ValueType) (index : Nat) :
    Respects g b (unaryOperator op type index) := by
  unfold unaryOperator
  infer_instance

/-! ### Calls -/

instance : Respects g b typeSpecifier := by
  unfold typeSpecifier
  refine .seq fun next => ?_
  split <;> infer_instance

instance : Respects g b castAhead := by
  unfold castAhead
  refine .seq fun next => ?_
  split
  · refine .seq fun after => ?_
    split <;> infer_instance
  · infer_instance

instance : Respects g b stepAhead := by
  unfold stepAhead
  refine .seq fun next => ?_
  split <;> infer_instance

/-- An overload has the types of the arguments, or it accepts them. -/
theorem chooseOverload_cases {all : List Signature} {types : List ValueType} {chosen : Signature}
    (h : chooseOverload all types = some chosen) :
    (all.find? fun s => s.parameters == types) = some chosen ∨
      (all.find? fun s => accepts s.parameters types) = some chosen := by
  unfold chooseOverload at h
  cases hexact : all.find? fun s => s.parameters == types with
  | some found => exact .inl (by rwa [hexact] at h)
  | none => exact .inr (by rwa [hexact] at h)

/-- An overload is chosen out of those that there are. -/
theorem mem_of_chooseOverload {all : List Signature} {types : List ValueType} {chosen : Signature}
    (h : chooseOverload all types = some chosen) : chosen ∈ all := by
  rcases chooseOverload_cases h with h | h <;> exact List.mem_of_find?_eq_some h

instance (path : List Token) : Respects g b (signatures path) :=
  .seq fun _ => .seq fun _ => .view fun _ _ => rfl

instance (literal : Option Token) (type : ValueType) :
    Respects g b (readingOperand id literal type) := by
  unfold readingOperand
  split <;> infer_instance

/-! ### Rules over what is nested inside -/

section Nested

variable (unary expression : Walk ValueType) [Respects g b unary] [Respects g b expression]
  [Respects .plain b expression]

instance (path : List Token) (index : Nat) : Respects g b (call expression path index) := by
  have slack : Respects g.slack b (call expression path index) := by
    unfold call
    refine .seq fun args => .seq fun all => .seq fun isEmitting => ?_
    split
    · infer_instance
    · split <;> infer_instance
  -- Casts go behind arguments, and never in front of the first.
  refine slack.of_slack fun s hpos _ => ?_
  unfold call
  refine code_of_arguments (fun n args hargs => ?_) hpos
  have chosen := fun all => Spares.chosenCall hargs all path index
  refine .bind inferInstance fun all => .bind inferInstance fun isEmitting => ?_
  split
  · infer_instance
  · split <;> infer_instance

instance (name : String) (returnType : ValueType) (index : Nat) :
    Respects g b (methodCall expression name returnType index) := by
  unfold methodCall
  refine .seq fun method => .of_slack inferInstance fun s hpos _ => ?_
  refine code_of_arguments (fun n args hargs => ?_) hpos
  have pass := Spares.passToMethod hargs method name index
  infer_instance

instance : Respects g b (newArray expression) := by
  unfold newArray
  refine .seq fun _ => .seq fun next => ?_
  split <;> infer_instance

instance : Respects g b (primary expression) := by
  unfold primary
  refine .seq fun next => ?_
  split <;> infer_instance

instance : Respects g b (unaryWith unary expression) := by
  unfold unaryWith
  refine .seq fun index => ?_
  dsimp only
  refine .seq fun next => ?_
  split <;> infer_instance

instance : Respects g b (memberLevel unary expression) := by
  unfold memberLevel
  refine .seq fun type => .loop (fun type => .seq fun isArrow => ?_) _
  split
  · refine .seq fun accessed => ?_
    split <;> infer_instance
  · infer_instance

instance (operators : List Kind) (operand : Walk ValueType) [Respects g b operand] :
    Respects g b (binaryLevel operators operand) := by
  unfold binaryLevel
  infer_instance

end Nested

theorem respects_upTo (n : Nat) : Respects g b (unaryUpTo n) ∧ Respects g b (expressionUpTo n) := by
  suffices Respects .plain b (unaryUpTo n) ∧ Respects .plain b (expressionUpTo n) from
    ⟨this.1.weaken, this.2.weaken⟩
  induction n with
  | zero => exact ⟨.broken, .broken⟩
  | succ n ih =>
    obtain ⟨hunary, hexpression⟩ := ih
    exact ⟨inferInstanceAs (Respects .plain b (unaryWith (unaryUpTo n) (expressionUpTo n))),
      inferInstanceAs (Respects .plain b (expressionWith (unaryUpTo n) (expressionUpTo n)))⟩

instance : Respects g b unary := by
  unfold unary
  exact .seq fun n => (respects_upTo _).1

instance : Respects g b expression := by
  unfold expression
  exact .seq fun n => (respects_upTo _).2

/-! ### Places and simple statements -/

instance : Respects g b memberPlace := by
  unfold memberPlace
  refine .seq fun type => .loop (fun type => ?_) _
  refine .seq fun index => .seq fun accessed => ?_
  split <;> infer_instance

instance (path : List Token) (index : Nat) (isIndexed : Bool) :
    Respects g b (placeOf path index id isIndexed) := by
  unfold placeOf
  infer_instance

instance : Respects g b assignmentPlace := by
  unfold assignmentPlace
  infer_instance

instance (place : Place) (kind : Kind) (index : Nat) :
    Respects g b (assignedValue place kind index) := by
  unfold assignedValue
  split <;> infer_instance

instance (place : Place) (op : Kind) : Respects g b (stepPlace place op) := by
  unfold stepPlace
  cases place <;> dsimp only <;> infer_instance

instance (form : Form) : Respects g b (formStatement form) := by
  unfold formStatement
  cases form <;> infer_instance

instance (type : ValueType) : Respects g b (caseLabel type) := by
  unfold caseLabel
  refine .seq fun literal => ?_
  split
  · infer_instance
  · refine .seq fun index => .seq fun path => ?_
    refine .seq fun found => ?_
    split
    · refine .seq fun _ => .seq fun x => ?_
      split <;> infer_instance
    · infer_instance

end Plain

end StateScript.Walk
