import StateScript.Proofs.Walk.Statements

/-! # Both walks take the same tokens

  The two walks go over the same tokens with the same rules, but they know different
  symbols and types: at the same place the first walk may not know yet what a name stands
  for. This module is about rules up to expressions and simple statements. If the second
  walk gets through such a rule, then so does the first, and both get to the same token
  (`Agrees`).

  There is one way for the two to part. A name that the first walk does not know may have
  an index and a step behind it, where the second walk takes the index only. Then the
  second walk is `Stuck` in front of the step, and no rule gets it past there.
-/

namespace StateScript.Walk

variable {args : List Argument} {operands : List Operand} {id : Nat} {c : Prop} {t : State}
  {wanted : ValueType}

set_option synthInstance.maxSize 1000000000

variable {α β γ : Type}

/-! ### Walks that report no failure of the compiler -/

/-- In the second walk it does not end the compilation for a failure of the compiler. -/
class Candid (x : Walk α) : Prop where
  run : ∀ t : State, t.pass = .emit → t.log.hasFatal = false → ending (x t) = some .fatal →
    ¬ Internal (final (x t)).log

theorem Candid.of_ending {x : Walk α} (h : ∀ t : State, t.pass = .emit →
    ending (x t) ≠ some .fatal) : Candid x :=
  ⟨fun t hpass _ hend => absurd hend (h t hpass)⟩

instance (priority := low) (x : Walk α) [hx : Respects .plain 0 x] : Candid x where
  run t _ hs hend := (hx.run t (Nat.zero_le _)).internal (.inr (Nat.le_refl _)) hend hs

instance (x : Walk α) (f : α → Walk β) [hx : Candid x] [rx : Respects .any 0 x]
    [hf : ∀ a, Candid (f a)] : Candid (x >>= f) where
  run t hpass hs := by
    cases hrun : x t with
    | ok a t₁ =>
      have hkeeps := rx.ok (Nat.zero_le _) hrun
      rw [bind_of_ok hrun]
      exact (hf a).run t₁ (hkeeps.pass.trans hpass) (hkeeps.running hs)
    | error e t₁ =>
      have h := hx.run t hpass hs
      rw [hrun] at h
      rw [bind_of_error hrun]
      exact h

instance [Decidable c] (x y : Walk α) [hx : Candid x] [hy : Candid y] :
    Candid (if c then x else y) := by
  split
  · exact hx
  · exact hy

instance (x : Walk Unit) : Candid (declaring x) :=
  .of_ending fun t hpass => by
    rw [declaring, emitting_bind_emit hpass]
    nofun

instance (id : Nat) : Candid (Walk.bind id) :=
  .of_ending fun t hpass => by
    rcases bind_of_emit id hpass with h | h <;> rw [h] <;> nofun

instance (id : Nat) (f : SymbolKind → SymbolKind) : Candid (modifyKind id f) :=
  .of_ending fun t _ => by
    rcases modifyKind_cases id f t with h | h <;> rw [h] <;> nofun

instance (id : Nat) (f : Variable → Variable) : Candid (modifyVariable id f) :=
  inferInstanceAs (Candid (modifyKind id _))

theorem Candid.enclosed {w x : Walk α} [hx : Candid x] (e : Enclosure w x) : Candid w where
  run t hpass hs hend := by
    rw [e.final_eq, (e.left ..).log]
    refine hx.run (e.enter t) ((e.entered t).pass.trans hpass) ?_ (e.ending_eq t ▸ hend)
    rw [(e.entered t).log]
    exact hs

/-! ### Walks that never succeed -/

class Never (x : Walk α) : Prop where
  ne_ok : ∀ s a s', x s ≠ .ok a s'

theorem Never.bind {x : Walk α} {f : α → Walk β} (hx : Never x) : Never (x >>= f) where
  ne_ok s b s' h := by
    obtain ⟨a, s₁, h₁, -⟩ := bind_eq_ok.1 h
    exact hx.ne_ok s a s₁ h₁

instance (x : Walk α) (f : α → Walk β) [hx : Never x] : Never (x >>= f) := hx.bind

instance (e : Stop) : Never (throw e : Walk α) := ⟨fun _ _ _ h => by cases h⟩

instance (index : Nat) (code : Code) (message : String) :
    Never (errorAt index code message : Walk α) where
  ne_ok s a s' h := by
    obtain ⟨log, -, -, -, -, hrun⟩ := errorAt_eq (α := α) index code message s
    rw [hrun] at h
    cases h

instance (code : Code) (message : String) : Never (errorHere code message : Walk α) where
  ne_ok s a s' h := by
    unfold errorHere at h
    obtain ⟨i, s₁, -, h⟩ := bind_eq_ok.1 h
    exact Never.ne_ok s₁ a s' h

instance (code : Code) (message : String) : Never (fatal code message : Walk α) where
  ne_ok s a s' h := by
    unfold fatal at h
    obtain ⟨i, s₁, -, h⟩ := bind_eq_ok.1 h
    obtain ⟨_, s₂, -, h⟩ := bind_eq_ok.1 h
    cases h

instance : Never (unexpectedEnd : Walk α) := inferInstanceAs (Never (fatal _ _))

instance (context : String) : Never (unexpected context : Walk α) where
  ne_ok s a s' h := by
    unfold unexpected at h
    obtain ⟨kind, s₁, -, h⟩ := bind_eq_ok.1 h
    cases kind with
    | none => exact Never.ne_ok s₁ a s' h
    | some kind => exact Never.ne_ok s₁ a s' h

instance (index : Nat) (path : List Token) : Never (undeclared index path : Walk α) :=
  inferInstanceAs (Never (errorAt _ _ _))

instance (index : Nat) (path : List Token) : Never (notArray index path : Walk α) :=
  inferInstanceAs (Never (errorAt _ _ _))

instance (index : Nat) (op : Kind) (type : ValueType) :
    Never (invalidOperator index op type : Walk α) :=
  inferInstanceAs (Never (errorAt _ _ _))

/-! ### Walks that go by the tokens alone -/

/-- Where such a walk succeeds, it succeeds from every state with the same tokens and the
    same position, and gives the same. -/
class Blind (x : Walk α) : Prop where
  run : ∀ {s t t' : State} {a : α}, t.tokens = s.tokens → t.pos = s.pos → x t = .ok a t' →
    ∃ s', x s = .ok a s' ∧ t'.pos = s'.pos ∧ t'.tokens = t.tokens ∧ s'.tokens = s.tokens

instance (x : Walk α) [hx : Never x] : Blind x := ⟨fun _ _ h => absurd h (hx.ne_ok _ _ _)⟩

instance (a : α) : Blind (pure a : Walk α) where
  run _ hpos h := by
    cases h
    exact ⟨_, rfl, hpos, rfl, rfl⟩

theorem Blind.view {f : State → α}
    (h : ∀ s t : State, t.tokens = s.tokens → t.pos = s.pos → f t = f s) : Blind (view f) where
  run {s t _ _} htokens hpos hrun := by
    cases hrun
    exact ⟨s, by rw [h s t htokens hpos]; rfl, hpos, rfl, rfl⟩

theorem Blind.bind {x : Walk α} {f : α → Walk β} (hx : Blind x) (hf : ∀ a, Blind (f a)) :
    Blind (x >>= f) where
  run {s t t' b} htokens hpos hrun := by
    obtain ⟨a, t₁, h₁, h₂⟩ := bind_eq_ok.1 hrun
    obtain ⟨s₁, hs₁, hpos₁, ht₁, hs₁'⟩ := hx.run htokens hpos h₁
    obtain ⟨s', hs', hpos', ht', hs''⟩ :=
      (hf a).run (by rw [ht₁, hs₁', htokens]) hpos₁ h₂
    exact ⟨s', bind_eq_ok.2 ⟨a, s₁, hs₁, hs'⟩, hpos', ht'.trans ht₁, hs''.trans hs₁'⟩

theorem Blind.seq {x : Walk α} {f : α → Walk β} [hx : Blind x] (hf : ∀ a, Blind (f a)) :
    Blind (x >>= f) :=
  .bind hx hf

instance (x : Walk α) (f : α → Walk β) [hx : Blind x] [hf : ∀ a, Blind (f a)] : Blind (x >>= f) :=
  hx.bind hf

instance [Decidable c] (x y : Walk α) [hx : Blind x] [hy : Blind y] :
    Blind (if c then x else y) := by
  split
  · exact hx
  · exact hy

instance : Blind position := .view fun _ _ _ h => h
instance : Blind tokenCount := .view fun _ _ h _ => by rw [h]
instance (ahead : Nat) : Blind (peekAt ahead) := .view fun _ _ h h' => by rw [h, h']
instance : Blind peek := .view fun _ _ h h' => by rw [h, h']
instance (index : Nat) : Blind (tokenAt index) := .view fun _ _ h _ => by rw [h]
instance : Blind atEnd := .view fun _ _ h h' => by rw [h, h']

instance (a : α) (turn : α → Walk (Turn α β)) [h : ∀ a, Blind (turn a)] : Blind (loop a turn) :=
  loop_induction (P := Blind) (fun _ => .seq) inferInstance (fun _ => inferInstance)
    (fun a _ => (h a).bind) a

instance (kind : Kind) : Blind (check kind) := by
  unfold check
  infer_instance

instance (pos : Nat) : Blind (moveTo pos) where
  run htokens _ h := by
    cases h
    exact ⟨_, rfl, rfl, rfl, rfl⟩

instance : Blind skip where
  run htokens hpos h := by
    cases h
    exact ⟨_, rfl, congrArg (· + 1) hpos, rfl, rfl⟩

instance (kind : Kind) : Blind (eat kind) := by
  unfold eat
  infer_instance

instance : Blind advance := by
  unfold advance
  refine .seq fun i => .seq fun t => ?_
  cases t <;> infer_instance

instance (kind : Kind) : Blind (expect kind) := by
  unfold expect
  refine .seq fun found => ?_
  cases found <;> infer_instance

instance (opens closes : Kind) : Blind (skipBalanced opens closes) := by
  unfold skipBalanced
  refine .seq fun pos => .bind (.view fun _ _ h _ => by rw [h]) fun next => ?_
  cases next <;> infer_instance

instance : Blind qualifiedPath := by
  unfold qualifiedPath
  infer_instance

instance (ends : List Kind) : Blind (foldedLiteral? ends) := by
  unfold foldedLiteral?
  refine .seq fun isNegative => .seq fun i => ?_
  refine .seq fun t => .seq fun next => ?_
  split <;> infer_instance

instance : Blind typeSpecifier := by
  unfold typeSpecifier
  refine .seq fun next => ?_
  split <;> infer_instance

instance : Blind castAhead := by
  unfold castAhead
  refine .seq fun next => ?_
  split
  · refine .seq fun after => ?_
    split <;> infer_instance
  · infer_instance

instance : Blind stepAhead := by
  unfold stepAhead
  refine .seq fun next => ?_
  split <;> infer_instance

/-! ### Walks that stay where they are -/

/-- A walk that takes no tokens. In the first walk it does not abandon a statement. -/
class Still (p : Pass) (x : Walk α) : Prop where
  stays : ∀ {s s' : State} {a : α}, s.pass = p → x s = .ok a s' → s'.pos = s.pos ∧ s'.pass = p
  lasts : p = .declare → ∀ s : State, s.pass = p → ending (x s) ≠ some .abandoned

section Still

variable {p : Pass}

instance (x : Walk α) [hx : Never x] : Still .emit x :=
  ⟨fun _ h => absurd h (hx.ne_ok _ _ _), nofun⟩

/-- A walk that does no more than change the state, other than its pass and position,
    unless it is broken. -/
theorem Still.of_cases {x : Walk α} (h : ∀ s, (∃ a s', x s = .ok a s' ∧ s'.pos = s.pos ∧
    s'.pass = s.pass) ∨ x s = .error .broken s) : Still p x where
  stays {s s' a} hpass hrun := by
    rcases h s with ⟨a', s'', hrun', hpos, hpass'⟩ | hbroken
    · cases hrun.symm.trans hrun'
      exact ⟨hpos, hpass'.trans hpass⟩
    · cases hrun.symm.trans hbroken
  lasts _ s _ := by
    rcases h s with ⟨a', s'', hrun', -, -⟩ | hbroken
    · rw [hrun']
      nofun
    · rw [hbroken]
      nofun

theorem Still.of_eq {x : Walk α} (h : ∀ s, ∃ a s', x s = .ok a s' ∧ s'.pos = s.pos ∧
    s'.pass = s.pass) : Still p x :=
  .of_cases fun s => .inl (h s)

instance (a : α) : Still p (pure a : Walk α) := .of_eq fun s => ⟨a, s, rfl, rfl, rfl⟩

instance (f : State → α) : Still p (view f) := .of_eq fun s => ⟨f s, s, rfl, rfl, rfl⟩

theorem Still.bind {x : Walk α} {f : α → Walk β} (hx : Still p x) (hf : ∀ a, Still p (f a)) :
    Still p (x >>= f) where
  stays hpass hrun := by
    obtain ⟨a, s₁, h₁, h₂⟩ := bind_eq_ok.1 hrun
    obtain ⟨hpos₁, hpass₁⟩ := hx.stays hpass h₁
    obtain ⟨hpos₂, hpass₂⟩ := (hf a).stays hpass₁ h₂
    exact ⟨hpos₂.trans hpos₁, hpass₂⟩
  lasts hp s hpass := by
    cases hrun : x s with
    | ok a s₁ =>
      rw [bind_of_ok hrun]
      exact (hf a).lasts hp s₁ (hx.stays hpass hrun).2
    | error e s₁ =>
      rw [bind_of_error hrun]
      have h := hx.lasts hp s hpass
      rw [hrun] at h
      exact h

theorem Still.seq {x : Walk α} {f : α → Walk β} [hx : Still p x] (hf : ∀ a, Still p (f a)) :
    Still p (x >>= f) :=
  .bind hx hf

instance (x : Walk α) (f : α → Walk β) [hx : Still p x] [hf : ∀ a, Still p (f a)] :
    Still p (x >>= f) :=
  hx.bind hf

instance (priority := low) (x : Walk (Option α)) (f : Option α → Walk β) [hx : Still p x]
    [hnone : Still p (f none)] [hsome : ∀ a, Still p (f (some a))] : Still p (x >>= f) :=
  hx.bind (Option.forall.2 ⟨hnone, hsome⟩)

instance [Decidable c] (x y : Walk α) [hx : Still p x] [hy : Still p y] :
    Still p (if c then x else y) := by
  split
  · exact hx
  · exact hy

/-- The first walk takes the branch for the first walk. -/
instance (priority := high) (f : Bool → Walk α) [h : Still .declare (f false)] :
    Still .declare (emitting >>= f) where
  stays hpass hrun := by
    rw [emitting_bind_declare hpass] at hrun
    exact h.stays hpass hrun
  lasts hp s hpass := by
    rw [emitting_bind_declare hpass]
    exact h.lasts hp s hpass

instance (priority := high) (f : Bool → Walk α) [h : Still .emit (f true)] :
    Still .emit (emitting >>= f) where
  stays hpass hrun := by
    rw [emitting_bind_emit hpass] at hrun
    exact h.stays hpass hrun
  lasts := nofun

instance (priority := high) (x y : Walk α) [d : Decidable (false = true)] [hy : Still p y] :
    Still p (if false = true then x else y) := by
  rw [if_neg Bool.false_ne_true]
  exact hy

instance (priority := high) (x y : Walk α) [d : Decidable (true = true)] [hx : Still p x] :
    Still p (if true = true then x else y) := by
  rw [if_pos rfl]
  exact hx

instance (priority := high) (c : Bool) (x y : Walk α) [d : Decidable ((false && c) = true)]
    [hy : Still p y] : Still p (if (false && c) = true then x else y) := by
  rw [if_neg (by simp)]
  exact hy

instance (xs : List α) (f : α → Walk Unit) [h : ∀ a, Still p (f a)] : Still p (xs.forM f) := by
  induction xs with
  | nil => exact inferInstanceAs (Still p (pure ()))
  | cons a xs ih => exact Still.bind (h a) fun _ => ih

instance : Still p position := inferInstanceAs (Still p (view _))
instance : Still p peek := inferInstanceAs (Still p (view _))
instance (ahead : Nat) : Still p (peekAt ahead) := inferInstanceAs (Still p (view _))
instance (index : Nat) : Still p (tokenAt index) := inferInstanceAs (Still p (view _))
instance : Still p tokenCount := inferInstanceAs (Still p (view _))
instance : Still p emitting := inferInstanceAs (Still p (view _))

instance (kind : Kind) : Still p (check kind) := by
  unfold check
  infer_instance

/-! Symbols -/

instance : Still p (symbol id) := by
  refine .of_cases fun s => ?_
  unfold symbol
  split
  · exact .inl ⟨_, s, rfl, rfl, rfl⟩
  · exact .inr rfl

instance (holds : State → Bool) : Still p (ensure holds) := by
  refine .of_cases fun s => ?_
  rcases ensure_cases holds s with ⟨hrun, -⟩ | hrun
  · exact .inl ⟨(), s, hrun, rfl, rfl⟩
  · exact .inr hrun

instance : Still p scopes := by
  refine .of_cases fun s => ?_
  unfold scopes
  split
  · exact .inl ⟨_, s, rfl, rfl, rfl⟩
  · exact .inr rfl

instance (scope : Nat) (name : String) (kind : SymbolKind) :
    Still p (addSymbol scope name kind) where
  stays hpass hrun := by
    obtain ⟨-, -, rfl⟩ := addSymbol_eq_ok hrun
    exact ⟨rfl, hpass⟩
  lasts _ s _ := by
    unfold addSymbol
    dsimp only
    split <;> nofun

instance (f : SymbolKind → SymbolKind) : Still p (modifyKind id f) := by
  refine .of_cases fun s => ?_
  rcases modifyKind_cases id f s with hrun | hrun
  · exact .inl ⟨_, _, hrun, rfl, rfl⟩
  · exact .inr hrun

instance : Still p (markUsed id) := inferInstanceAs (Still p (modifyKind id _))

instance (f : Variable → Variable) : Still p (modifyVariable id f) :=
  inferInstanceAs (Still p (modifyKind id _))

instance (f : Function → Function) : Still p (modifyFunction id f) :=
  inferInstanceAs (Still p (modifyKind id _))

instance : Still p (variableType id) := by
  unfold variableType
  refine .seq fun x => ?_
  split <;> infer_instance

instance : Still p (variableTraits id) := by
  unfold variableTraits
  refine .seq fun x => ?_
  split <;> infer_instance

instance : Still p (slot id) := by
  unfold slot
  refine .seq fun x => ?_
  split <;> infer_instance

instance (index : Register) : Still p (indexedSlot id index) := by
  unfold indexedSlot
  refine .seq fun x => ?_
  split <;> infer_instance

instance (text : String) : Still p (intern text) := by
  unfold intern
  refine .seq fun found => ?_
  split <;> infer_instance

instance (path : List Token) (scope : Nat) : Still p (descend path scope) := by
  induction path generalizing scope with
  | nil => exact inferInstanceAs (Still p (pure (some scope)))
  | cons segment rest ih =>
    unfold descend
    refine .seq fun found => ?_
    cases found with
    | some id => exact ih id
    | none => infer_instance

instance (path : List Token) (filter : Symbol → Bool) : Still p (resolvePath path filter) := by
  unfold resolvePath
  split
  · infer_instance
  · refine .seq fun found => ?_
    split <;> infer_instance
  · refine .seq fun found => ?_
    split <;> infer_instance

instance (path : List Token) : Still p (candidates path) := by
  unfold candidates
  dsimp only
  split
  · infer_instance
  · infer_instance
  · refine .seq fun found => ?_
    split <;> infer_instance

/-! Code -/

instance (opcode : Opcode) : Still p (emit opcode operands) := by
  refine .of_cases fun s => ?_
  rcases s.pass_cases with hpass | hpass
  · exact .inl ⟨(), s, emit_of_declare opcode operands hpass, rfl, rfl⟩
  · rcases emit_of_emit opcode operands hpass with hrun | hrun
    · exact .inl ⟨_, _, hrun, rfl, rfl⟩
    · exact .inr hrun

instance (place : Nat) (opcode : Opcode) : Still p (emitAt place opcode operands) := by
  refine .of_cases fun s => ?_
  rcases s.pass_cases with hpass | hpass
  · exact .inl ⟨(), s, emitAt_of_declare place opcode operands hpass, rfl, rfl⟩
  · rcases emitAt_of_emit place opcode operands hpass with hrun | hrun
    · exact .inl ⟨_, _, hrun, rfl, rfl⟩
    · exact .inr hrun

instance (target : Nat) : Still p (bind target) := by
  refine .of_cases fun s => ?_
  rcases s.pass_cases with hpass | hpass
  · exact .inl ⟨(), s, bind_of_declare hpass, rfl, rfl⟩
  · rcases bind_of_emit target hpass with hrun | hrun
    · exact .inl ⟨_, _, hrun, rfl, rfl⟩
    · exact .inr hrun

instance (t : ValueType) (op : Operation) : Still p (opcodeFor t op) := by
  unfold opcodeFor
  split
  · infer_instance
  · cases p <;> infer_instance

instance (index : Nat) (code : Code) (level : Level) (message : String) :
    Still p (reportAt index code level message) where
  stays hpass hrun := by
    unfold reportAt at hrun
    dsimp only at hrun
    split at hrun <;> cases hrun
    exact ⟨rfl, hpass⟩
  lasts _ s _ := by
    unfold reportAt
    dsimp only
    split <;> nofun

/-! Conversions, stores and operators -/

instance (place : Place) (value : ValueType) (index : Nat) :
    Still p (storePlace place value index) := by
  unfold storePlace
  cases p <;> cases place <;> infer_instance

instance (place : Place) : Still p (loadPlace place) := by
  unfold loadPlace
  cases place <;> dsimp only <;> infer_instance

instance (op : Kind) (type : ValueType) : Still p (binaryOpcode op type) := by
  unfold binaryOpcode
  split <;> infer_instance

instance (op : Kind) (left right : ValueType) (index : Nat) :
    Still p (binary op left right index) := by
  unfold binary
  dsimp only
  cases p <;> infer_instance

instance (op : Kind) (type : ValueType) : Still p (prefixOpcode op type) := by
  unfold prefixOpcode
  split <;> infer_instance

instance (op : Kind) (type : ValueType) (index : Nat) : Still p (unaryOperator op type index) := by
  unfold unaryOperator
  dsimp only
  cases p <;> infer_instance

instance (op : Kind) (index : Nat) : Still p (stepVariable id op index) := by
  unfold stepVariable
  cases p <;> infer_instance

/-! Calls, variables and members -/

instance (t : Token) (type : ValueType) : Still .emit (literalOperand t type) := by
  unfold literalOperand
  split
  · infer_instance
  · split <;> infer_instance

instance (literal : Option Token) (type : ValueType) :
    Still .emit (readingOperand id literal type) := by
  unfold readingOperand
  split <;> infer_instance

instance (types : List ValueType) : Still p (castArguments args types) := by
  unfold castArguments
  have each : ∀ x : Argument × ValueType, Still p (castArgument x.1 x.2) := inferInstance
  infer_instance

instance (all : List Signature) (path : List Token) (index : Nat) :
    Still .emit (chosenCall args all path index) := by
  unfold chosenCall
  dsimp only
  split <;> infer_instance

instance (method : Nat) (name : String) (index : Nat) :
    Still .emit (passToMethod method args name index) := by
  unfold passToMethod
  dsimp only
  refine .seq fun x => ?_
  split <;> infer_instance

instance (path : List Token) (index : Nat) (isIndexed : Bool) :
    Still p (placeOf path index id isIndexed) := by
  unfold placeOf
  refine .seq fun traits => ?_
  dsimp only
  cases p <;> infer_instance

end Still

/-! ### Agreement -/

/-- Whether a literal can stand for a value of a type. -/
def Denotes (t : Token) (type : ValueType) : Prop :=
  (!type.isArray && type.primitive == .string) = true ∨
    ∃ x, (literalValue? t).bind (numeralOperand? · type) = some x

/-- Every constant with a literal has one that suits its type. -/
def Fits (t : Table) : Prop :=
  ∀ id v l, t.var? id = some v → v.literal = some l → Denotes l v.type

/-- The two walks at the same token. -/
structure Level (s t : State) : Prop where
  first : s.pass = .declare
  second : t.pass = .emit
  tokens : t.tokens = s.tokens
  pos : t.pos = s.pos
  counters : (s.loops.findSome? (·.counter)).isSome = (t.loops.findSome? (·.counter)).isSome
  fits : Fits s.table
  running : t.log.hasFatal = false

/-- A step is next. -/
def Stuck (t : State) : Prop :=
  ∃ x, t.tokens[t.pos]? = some x ∧ (x.kind = .increment ∨ x.kind = .decrement)

/-- An end that ends the whole compilation. -/
def Doomed (r : EStateM.Result Stop State α) : Prop :=
  ending r = some .fatal ∨ ending r = some .broken

/-- Where the second walk gets through `y`, the first gets through `x` to the same token,
    and the results are related. If it is loose, the second may be stuck instead. -/
structure AgreesOn (isLoose : Bool) (x : Walk α) (y : Walk β) (Q : α → β → Prop) : Prop where
  run : ∀ {s t t' : State} {b : β}, Level s t → y t = .ok b t' →
    Doomed (x s) ∨ (isLoose = true ∧ Stuck t') ∨
      ∃ a s', x s = .ok a s' ∧ t'.pos = s'.pos ∧ Q a b

/-- The same, with nothing said about the results. -/
abbrev Agrees (isLoose : Bool) (x : Walk α) (y : Walk β) : Prop :=
  AgreesOn isLoose x y fun _ _ => True

/-- How a run ends that is stuck: where it was, if it is loose, or for a reason other than a
    failure of the compiler. -/
structure Halted (isLoose : Bool) (r : EStateM.Result Stop State α) : Prop where
  ok : ∀ {b : α} {t' : State}, r = .ok b t' →
    isLoose = true ∧ Stuck t' ∧ t'.pass = .emit ∧ t'.log.hasFatal = false
  lost : ∀ {t' : State}, r = .error .fatal t' → ¬ Internal t'.log

/-- A walk that gets nowhere when stuck. -/
class Halts (isLoose : Bool) (y : Walk α) : Prop where
  run : ∀ {t : State}, t.pass = .emit → t.log.hasFatal = false → Stuck t → Halted isLoose (y t)

theorem LiteralsFrom.fits {t t' : Table} (h : LiteralsFrom t t') (hfits : Fits t) : Fits t' := by
  intro id v l hv hl
  obtain ⟨v₀, hv₀, hl₀, hty⟩ := h id v l hv hl
  rw [← hty]
  exact hfits id v₀ l hv₀ hl₀

/-- The two walks are still level after runs that have got to the same token. -/
theorem Level.keeps {s s' t' : State} {e : Option Stop} (h : Level s t)
    (hs : Keeps .plain 0 e s s') (ht : Keeps .any 0 none t t') (hpos : t'.pos = s'.pos) :
    Level s' t' where
  first := hs.pass.trans h.first
  second := ht.pass.trans h.second
  tokens := by rw [ht.tokens, hs.tokens, h.tokens]
  pos := hpos
  counters := by rw [hs.loops, ht.loops, h.counters]
  fits := (hs.plain (Nat.le_refl _)).2.2.1.fits h.fits
  running := ht.running h.running

theorem Stuck.of_still {t' : State} (h : Stuck t) (hpos : t'.pos = t.pos)
    (htokens : t'.tokens = t.tokens) : Stuck t' := by
  unfold Stuck at *
  rw [hpos, htokens]
  exact h

theorem Doomed.bind {x : Walk α} {f : α → Walk β} {s : State} (h : Doomed (x s)) :
    Doomed ((x >>= f) s) := by
  cases hrun : x s with
  | ok a s₁ =>
    rw [hrun] at h
    rcases h with h | h <;> cases h
  | error e s₁ =>
    rw [hrun] at h
    rw [bind_of_error hrun]
    exact h

/-- A walk that does not abandon a statement succeeds or ends the compilation. -/
theorem doomed_or_ok {r : EStateM.Result Stop State α} (h : ending r ≠ some .abandoned) :
    Doomed r ∨ ∃ a s, r = .ok a s := by
  cases r with
  | ok a s => exact .inr ⟨a, s, rfl⟩
  | error e s =>
    cases e with
    | abandoned => exact absurd rfl h
    | fatal => exact .inl (.inl rfl)
    | broken => exact .inl (.inr rfl)

/-! Walks that are stuck -/

section Halting

variable {l : Bool}

theorem Candid.lost {y : Walk α} [hy : Candid y] (hpass : t.pass = .emit)
    (hrunning : t.log.hasFatal = false) {t' : State} (hrun : y t = .error .fatal t') :
    ¬ Internal t'.log := by
  have h := hy.run t hpass hrunning
  rw [hrun] at h
  exact h rfl

instance (y : Walk α) [hy : Never y] [Candid y] : Halts l y where
  run hpass hrunning _ := ⟨fun h => absurd h (hy.ne_ok _ _ _), Candid.lost hpass hrunning⟩

instance (y : Walk α) [hy : Still .emit y] [hy' : Respects .any 0 y] [Candid y] :
    Halts true y where
  run hpass hrunning hstuck := by
    refine ⟨fun hrun => ?_, Candid.lost hpass hrunning⟩
    have hkeeps := hy'.ok (Nat.zero_le _) hrun
    obtain ⟨hpos, hpass'⟩ := hy.stays hpass hrun
    exact ⟨rfl, hstuck.of_still hpos hkeeps.tokens, hpass', hkeeps.running hrunning⟩

theorem Halted.still (a : α) (hpass : t.pass = .emit) (hrunning : t.log.hasFatal = false)
    (hstuck : Stuck t) : Halted true (.ok a t : EStateM.Result Stop State α) := by
  refine ⟨fun h => ?_, fun h => ?_⟩
  · cases h
    exact ⟨rfl, hstuck, hpass, hrunning⟩
  · cases h

theorem Halted.bind {l' : Bool} {x : Walk α} {f : α → Walk β} (hx : Halted l' (x t))
    (hf : l' = true → ∀ a {t₁ : State}, t₁.pass = .emit → t₁.log.hasFatal = false → Stuck t₁ →
      Halted l (f a t₁)) : Halted l ((x >>= f) t) := by
  cases hrun : x t with
  | ok a t₁ =>
    obtain ⟨hl, hstuck, hpass, hrunning⟩ := hx.ok hrun
    rw [bind_of_ok hrun]
    exact hf hl a hpass hrunning hstuck
  | error e t₁ =>
    rw [bind_of_error hrun]
    refine ⟨fun h => ?_, fun h => ?_⟩
    · cases h
    · cases h
      exact hx.lost hrun

theorem Halts.bind {x : Walk α} {f : α → Walk β} (hx : Halts true x) (hf : ∀ a, Halts l (f a)) :
    Halts l (x >>= f) where
  run hpass hrunning hstuck := (hx.run hpass hrunning hstuck).bind fun _ a => (hf a).run

theorem Halts.seq {x : Walk α} {f : α → Walk β} [hx : Halts true x] (hf : ∀ a, Halts l (f a)) :
    Halts l (x >>= f) :=
  .bind hx hf

instance (x : Walk α) (f : α → Walk β) [hx : Halts true x] [hf : ∀ a, Halts l (f a)] :
    Halts l (x >>= f) :=
  hx.bind hf

instance (priority := high) (x : Walk α) (f : α → Walk β) [hx : Halts false x] :
    Halts l (x >>= f) where
  run hpass hrunning hstuck := (hx.run hpass hrunning hstuck).bind fun h => by cases h

instance [Decidable c] (x y : Walk α) [hx : Halts l x] [hy : Halts l y] :
    Halts l (if c then x else y) := by
  split
  · exact hx
  · exact hy

instance (priority := high) (x y : Walk α) [d : Decidable (false = true)] [hy : Halts l y] :
    Halts l (if false = true then x else y) := by
  rw [if_neg Bool.false_ne_true]
  exact hy

theorem Halts.iterate {turn : α → Walk (Turn α β)} (h : ∀ a, Halts l (turn a)) (n : Nat) (a : α) :
    Halts l (iterate turn n a) where
  run {t} hpass hrunning hstuck := by
    induction n generalizing a t with
    | zero =>
      have halts : Halts l (throw .broken : Walk β) := inferInstance
      exact halts.run hpass hrunning hstuck
    | succ n ih =>
      refine ((h a).run hpass hrunning hstuck).bind fun hl r t₁ hpass₁ hrunning₁ hstuck₁ => ?_
      cases r with
      | again a => exact ih a hpass₁ hrunning₁ hstuck₁
      | done b =>
        subst hl
        exact .still b hpass₁ hrunning₁ hstuck₁

instance (a : α) (turn : α → Walk (Turn α β)) [h : ∀ a, Halts l (turn a)] :
    Halts l (loop a turn) := by
  unfold loop
  exact .seq fun n => .iterate h _ a

/-- A kind of token other than a step. -/
class Mark (kind : Kind) : Prop where
  ne : kind ≠ .increment ∧ kind ≠ .decrement

instance : Mark .closeParen := ⟨by decide⟩
instance : Mark .closeBracket := ⟨by decide⟩
instance : Mark .closeBrace := ⟨by decide⟩
instance : Mark .comma := ⟨by decide⟩
instance : Mark .semicolon := ⟨by decide⟩
instance : Mark .arrow := ⟨by decide⟩

/-- What is next when stuck. -/
theorem Stuck.peek_eq (h : Stuck t) :
    peek t = .ok (some .increment) t ∨ peek t = .ok (some .decrement) t := by
  obtain ⟨x, hx, hkind⟩ := h
  unfold peek view
  dsimp only
  rw [hx]
  rcases hkind with hkind | hkind
  · exact .inl (by rw [Option.map_some, hkind])
  · exact .inr (by rw [Option.map_some, hkind])

theorem Stuck.check_eq (h : Stuck t) (kind : Kind) [hkind : Mark kind] :
    check kind t = .ok false t := by
  unfold check
  rcases h.peek_eq with hpeek | hpeek <;> rw [bind_of_ok hpeek] <;>
    simp [hkind.ne.1.symm, hkind.ne.2.symm, pure, EStateM.pure]

instance (priority := high) (kind : Kind) [Mark kind] (f : Bool → Walk α) [h : Halts l (f false)] :
    Halts l (check kind >>= f) where
  run hpass hrunning hstuck := by
    rw [bind_of_ok (hstuck.check_eq kind)]
    exact h.run hpass hrunning hstuck

theorem Stuck.eat_eq (h : Stuck t) (kind : Kind) [Mark kind] : eat kind t = .ok false t := by
  unfold eat
  rw [bind_of_ok (h.check_eq kind)]
  rfl

instance (priority := high) (kind : Kind) [Mark kind] (f : Bool → Walk α) [h : Halts l (f false)] :
    Halts l (eat kind >>= f) where
  run hpass hrunning hstuck := by
    rw [bind_of_ok (hstuck.eat_eq kind)]
    exact h.run hpass hrunning hstuck

instance (kind : Kind) [hkind : Mark kind] : Halts l (expect kind) where
  run {t} hpass hrunning hstuck := by
    refine ⟨fun hrun => ?_, Candid.lost hpass hrunning⟩
    unfold expect at hrun
    rcases hstuck.peek_eq with hpeek | hpeek <;> rw [bind_of_ok hpeek] at hrun <;>
      dsimp only at hrun
    · rw [if_neg hkind.ne.1.symm] at hrun
      exact absurd hrun (Never.ne_ok _ _ _)
    · rw [if_neg hkind.ne.2.symm] at hrun
      exact absurd hrun (Never.ne_ok _ _ _)

end Halting

/-! Composition -/

namespace AgreesOn

variable {l : Bool} {δ : Type} {Q : α → β → Prop} {x : Walk α} {y : Walk β}

theorem mono {Q' : α → β → Prop} (h : AgreesOn l x y Q) (hQ : ∀ a b, Q a b → Q' a b) :
    AgreesOn l x y Q' where
  run {s t t' b} hlevel hrun := by
    rcases h.run hlevel hrun with h | h | ⟨a, s', hs, hpos, hq⟩
    · exact .inl h
    · exact .inr (.inl h)
    · exact .inr (.inr ⟨a, s', hs, hpos, hQ a b hq⟩)

theorem loosen (h : AgreesOn false x y Q) : AgreesOn l x y Q where
  run hlevel hrun := by
    rcases h.run hlevel hrun with h | ⟨h, -⟩ | h
    · exact .inl h
    · cases h
    · exact .inr (.inr h)

theorem never [hy : Never y] : AgreesOn l x y Q :=
  ⟨fun _ hrun => absurd hrun (hy.ne_ok _ _ _)⟩

theorem pure {a : α} {b : β} (h : Q a b) : AgreesOn l (Pure.pure a) (Pure.pure b) Q where
  run {s _ _ _} hlevel hrun := by
    cases hrun
    exact .inr (.inr ⟨a, s, rfl, hlevel.pos, h⟩)

/-- Code is made by both walks or by one, at the same token. -/
theorem still [hx : Still .declare x] [hy : Still .emit y] : Agrees l x y where
  run {s t t' b} hlevel hrun := by
    rcases doomed_or_ok (hx.lasts rfl s hlevel.first) with h | ⟨a, s', hs⟩
    · exact .inl h
    · refine .inr (.inr ⟨a, s', hs, ?_, trivial⟩)
      rw [(hy.stays hlevel.second hrun).1, (hx.stays hlevel.first hs).1, hlevel.pos]

/-- One part after the other, if what follows a loose one gets nowhere when stuck. -/
theorem bind_halts {l' : Bool} {f : α → Walk γ} {g : β → Walk δ} {R : α → β → Prop}
    {Q : γ → δ → Prop} [rx : Respects .plain 0 x] [ry : Respects .plain 0 y]
    (halts : l' = true → ∀ b, Halts l (g b)) (hx : AgreesOn l' x y R)
    (hf : ∀ a b, R a b → AgreesOn l (f a) (g b) Q) : AgreesOn l (x >>= f) (y >>= g) Q where
  run {s t t' d} hlevel hrun := by
    obtain ⟨b, t₁, ht₁, hrun⟩ := bind_eq_ok.1 hrun
    have ht : Keeps .any 0 none t t₁ := (ry.ok (Nat.zero_le _) ht₁).weaken
    rcases hx.run hlevel ht₁ with hdoomed | ⟨hloose, hstuck⟩ | ⟨a, s₁, hs₁, hpos, hR⟩
    · exact .inl hdoomed.bind
    -- What follows gets a stuck walk nowhere.
    · obtain ⟨hl, hstuck', -⟩ := ((halts hloose b).run (ht.pass.trans hlevel.second)
        (ht.running hlevel.running) hstuck).ok hrun
      exact .inr (.inl ⟨hl, hstuck'⟩)
    · have hlevel₁ := hlevel.keeps (rx.ok (Nat.zero_le _) hs₁) ht hpos
      rw [bind_of_ok hs₁]
      exact (hf a b hR).run hlevel₁ hrun

/-- A loose part in front of what gets nowhere when stuck. -/
theorem bind_loose {f : α → Walk γ} {g : β → Walk δ} {R : α → β → Prop} {Q : γ → δ → Prop}
    [Respects .plain 0 x] [Respects .plain 0 y] (hx : AgreesOn true x y R)
    (hf : ∀ a b, R a b → AgreesOn l (f a) (g b) Q) [h : ∀ b, Halts l (g b)] :
    AgreesOn l (x >>= f) (y >>= g) Q :=
  bind_halts (fun _ => h) hx hf

theorem bind {f : α → Walk γ} {g : β → Walk δ} {R : α → β → Prop} {Q : γ → δ → Prop}
    [Respects .plain 0 x] [Respects .plain 0 y] (hx : AgreesOn false x y R)
    (hf : ∀ a b, R a b → AgreesOn l (f a) (g b) Q) : AgreesOn l (x >>= f) (y >>= g) Q :=
  bind_halts (absurd · Bool.false_ne_true) hx hf

/-- What goes by the tokens alone gives both walks the same. -/
theorem blind {x : Walk γ} [hx : Blind x] : AgreesOn false x x Eq where
  run {s t t' b} hlevel hrun := by
    obtain ⟨s', hs', hpos, -, -⟩ := hx.run hlevel.tokens hlevel.pos hrun
    exact .inr (.inr ⟨b, s', hs', hpos, rfl⟩)

theorem same {x : Walk γ} [Blind x] : Agrees l x x := blind.loosen.mono fun _ _ _ => trivial

theorem bind_blind {x : Walk γ} {f : γ → Walk α} {g : γ → Walk β} [Blind x] [Respects .plain 0 x]
    (hf : ∀ c, AgreesOn l (f c) (g c) Q) : AgreesOn l (x >>= f) (x >>= g) Q :=
  bind blind fun a _ h => h ▸ hf a

/-- Code in both walks, and then the rest. -/
theorem bind_still {x : Walk γ} {y : Walk δ} {f : γ → Walk α} {g : δ → Walk β} [Still .declare x]
    [Still .emit y] [Respects .plain 0 x] [Respects .plain 0 y]
    (hf : ∀ a b, AgreesOn l (f a) (g b) Q) : AgreesOn l (x >>= f) (y >>= g) Q :=
  bind (R := fun _ _ => True) still fun a b _ => hf a b

/-- Code in the second walk only. -/
theorem right {y : Walk γ} {g : γ → Walk β} [Still .emit y] [Respects .plain 0 y]
    (hg : ∀ b, AgreesOn l x (g b) Q) : AgreesOn l x (y >>= g) Q :=
  bind_still (x := (Pure.pure () : Walk Unit)) (f := fun _ => x) fun _ b => hg b

theorem emitting_left {f : Bool → Walk α} (h : AgreesOn l (f false) y Q) :
    AgreesOn l (Walk.emitting >>= f) y Q where
  run hlevel hrun := by
    rw [emitting_bind_declare hlevel.first]
    exact h.run hlevel hrun

theorem emitting_right {g : Bool → Walk β} (h : AgreesOn l x (g true) Q) :
    AgreesOn l x (Walk.emitting >>= g) Q where
  run hlevel hrun := by
    rw [emitting_bind_emit hlevel.second] at hrun
    exact h.run hlevel hrun

theorem emitting {f : Bool → Walk α} {g : Bool → Walk β} (h : AgreesOn l (f false) (g true) Q) :
    AgreesOn l (Walk.emitting >>= f) (Walk.emitting >>= g) Q :=
  emitting_left (emitting_right h)

end AgreesOn

/-- Two turns of the same sort. -/
inductive Turn.Alike : Turn α β → Turn α β → Prop
  | again (a a' : α) : Turn.Alike (.again a) (.again a')
  | done (b b' : β) : Turn.Alike (.done b) (.done b')

theorem AgreesOn.loop {l : Bool} {turn : α → Walk (Turn α β)} (r : ∀ a, Respects .plain 0 (turn a))
    (halts : ∀ a, Halts l (turn a)) (h : ∀ a a', AgreesOn l (turn a) (turn a') Turn.Alike)
    (a a' : α) : Agrees l (loop a turn) (loop a' turn) := by
  unfold Walk.loop
  refine .bind_blind fun n => ?_
  induction n + 1 generalizing a a' with
  | zero => exact .never (y := throw .broken)
  | succ n ih =>
    unfold iterate
    cases l with
    | false =>
      refine .bind (h a a') fun t t' ht => ?_
      -- Both take another turn, or both are done.
      cases ht with
      | again a a' => exact ih a a'
      | done => exact .pure trivial
    | true =>
      refine .bind_loose (h a a') (fun t t' ht => ?_) (h := fun t' => ?_)
      · cases ht with
        | again a a' => exact ih a a'
        | done => exact .pure trivial
      · cases t' with
        | again a => exact .iterate halts n a
        | done b => exact inferInstanceAs (Halts true (Pure.pure b))

theorem AgreesOn.bind_loop {l : Bool} {x : Walk α} [Respects .plain 0 x] (hx : Agrees true x x)
    {turn : α → Walk (Turn α β)} (r : ∀ a, Respects .plain 0 (turn a))
    (halts : ∀ a, Halts l (turn a)) (h : ∀ a a', AgreesOn l (turn a) (turn a') Turn.Alike) :
    Agrees l (x >>= (Walk.loop · turn)) (x >>= (Walk.loop · turn)) :=
  .bind_loose hx fun a a' _ => .loop r halts h a a'

end StateScript.Walk
