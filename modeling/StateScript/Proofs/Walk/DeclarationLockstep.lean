import StateScript.Proofs.Walk.Lockstep

/-! # Declarations in step

  Both walks get through a declaration together: the first makes the symbols, and the
  second finds them again. The first alone makes the checks, so a declaration that it
  refuses has been reported; this is how functions and states inside of functions are
  dealt with.

  What stands in the body of a declaration is taken for granted to be in step.
-/

namespace StateScript.Walk

variable {l : Bool} {m : Modifiers} {id ordinal scope : Nat} {s s' s₁ t : State} {x : Symbol}
  {filter : Symbol → Bool} {t' : Table}

set_option synthInstance.maxSize 1000000000

variable {α β : Type} {k : Mode} {b : Nat} {o o' : Nat → Prop}

/-- Two runs in step, of which the results do not matter. -/
abbrev InStep (k : Mode) (b : Nat) (o : Nat → Prop) (x y : Walk Unit) (o' : Nat → Prop) : Prop :=
  Marches k false b o x y (fun _ _ => True) fun _ => o'

/-! ### Entering and leaving -/

section Enclosing

variable {x y : Walk Unit} [Respects .any 0 x] [Respects .any 0 y]

theorem InStep.inBlock (h : InStep k b o x y o') : InStep k b o (inBlock x) (inBlock y) o' :=
  h.enclosed (.inBlock x) (.inBlock y) (fun _ _ h => h.control rfl rfl) fun _ _ h => h

theorem InStep.inScope (h : InStep k b o x y o') {id' : Nat} (hid : k.isClose = true → id' = id) :
    InStep k b o (inScope id x) (inScope id' y) o' :=
  h.enclosed (.inScope id x) (.inScope id' y)
    (fun _ _ h => ⟨h.function, h.regions, h.shapes, hid⟩) fun _ _ h => h

theorem InStep.inRegion (h : InStep k b o x y o') (e : Exclusion) (index : Nat) :
    InStep k b o (inRegion e index x) (inRegion e index y) o' :=
  h.enclosed (.inRegion e index x) (.inRegion e index y)
    (fun _ _ h => ⟨h.function, congrArg (e.set · _) h.regions, h.shapes, h.scope⟩) fun _ _ h => h

/-- Loops of the same shape. -/
theorem InStep.inLoop (h : InStep k b o x y o') {stop stop' : Nat}
    {resume resume' counter counter' : Option Nat} (hresume : resume'.isSome = resume.isSome)
    (hcounter : counter'.isSome = counter.isSome) :
    InStep k b o (inLoop stop resume counter x) (inLoop stop' resume' counter' y) o' := by
  refine h.enclosed (.inLoop ..) (.inLoop ..) (fun s t h => ?_) fun _ _ h => h
  refine ⟨h.function, h.regions, ?_, h.scope⟩
  simp only [Enclosure.inLoop, List.map_cons, LoopFrame.shape, hresume, hcounter, h.regions]
  exact congrArg _ h.shapes

end Enclosing

/-! ### Statements -/

section Inner

variable (inner : Walk Unit) [∀ b, Respects .any b inner]
  (hinner : ∀ k b o, InStep k b o inner inner o)
include hinner

theorem inStep_statementsUntil (stops : Kind → Bool) :
    InStep k b o (statementsUntil stops inner) (statementsUntil stops inner) o := by
  unfold statementsUntil
  refine (Marches.loop (fun b _ => ?_) (fun _ => .bind_blind fun next => ?_) ()).mono
    (fun _ _ _ => trivial) fun _ _ h => h
  · refine .seq fun next => ?_
    split <;> infer_instance
  · cases next with
    | none => exact .never
    | some kind =>
      refine .ite (fun _ => .pure rfl fun _ h => h) fun _ => ?_
      exact .bind (hinner k b o) fun _ _ _ => .pure rfl fun _ h => h

theorem inStep_blockContents : InStep k b o (blockContents inner) (blockContents inner) o := by
  unfold blockContents
  exact .bind (inStep_statementsUntil inner hinner _) fun _ _ _ => .of_agrees .same

end Inner

/-! ### Modifiers -/

theorem marches_modifiers : Marches k false b o modifiers modifiers Eq fun _ => o := by
  unfold modifiers
  refine .loop (fun b m => ?_) (fun m => .bind_blind fun next => ?_) ({} : Modifiers)
  · refine .seq fun next => ?_
    split
    · infer_instance
    · split <;> infer_instance
  · cases next with
    | none => exact .pure rfl fun _ h => h
    | some kind =>
      dsimp only
      cases m.add? kind with
      | none => exact .pure rfl fun _ h => h
      | some added =>
        refine .bind_blind fun index => .bind_blind fun _ => ?_
        exact .ite (fun _ => .reject ..) fun _ => .pure rfl fun _ h => h

/-- What holds of everything that a loop goes over. -/
theorem iterate_all {P : α → Prop} {R : β → Prop} {turn : α → Walk (Turn α β)}
    (h : ∀ a s r s', P a → turn a s = .ok r s' → match r with
      | .again a => P a
      | .done c => R c) (n : Nat) {a : α} (ha : P a) {s : State} {c : β}
    (hrun : iterate turn n a s = .ok c s') : R c := by
  induction n generalizing a s with
  | zero => cases hrun
  | succ n ih =>
    obtain ⟨r, s₁, hturn, hrun⟩ := bind_eq_ok.1 hrun
    have hr := h a s r s₁ ha hturn
    cases r with
    | again a => exact ih hr hrun
    | done c =>
      cases hrun
      exact hr

/-- No word in front of a declaration makes a method. -/
theorem modifiers_method (h : modifiers s = .ok m s') : m.flags.method = false := by
  unfold modifiers loop at h
  obtain ⟨count, s₁, -, h⟩ := bind_eq_ok.1 h
  refine iterate_all (P := fun m => m.flags.method = false) (R := fun m => m.flags.method = false)
    (fun m s r s' hm hturn => ?_) _ rfl h
  obtain ⟨next, s₁, -, hturn⟩ := bind_eq_ok.1 hturn
  cases next with
  | none =>
    cases hturn
    exact hm
  | some kind =>
    dsimp only at hturn
    cases hadd : m.add? kind with
    | none =>
      rw [hadd] at hturn
      cases hturn
      exact hm
    | some added =>
      rw [hadd] at hturn
      obtain ⟨index, s₂, -, hturn⟩ := bind_eq_ok.1 hturn
      obtain ⟨_, s₃, -, hturn⟩ := bind_eq_ok.1 hturn
      -- No word sets this flag.
      have hkept : added.1.flags.method = false := by
        unfold Modifiers.add? at hadd
        split at hadd <;> first | (cases hadd; exact hm) | cases hadd
      split at hturn
      · obtain ⟨_, _, -, hturn⟩ := bind_eq_ok.1 hturn
        cases hturn
      · cases hturn
        exact hkept

/-! ### Values of variables -/

theorem agrees_initializer (id id' : Nat) : Agrees true (initializer id) (initializer id') := by
  unfold initializer
  exact .bind_loose agrees_expression fun _ _ _ => .still

/-- The code of an initial value that is computed once goes outside of all functions. -/
theorem marches_globalInitializer (id id' : Nat) : Marches k true b o (globalInitializer id)
    (globalInitializer id') (fun _ _ => True) fun _ => o where
  run {s t} _ habreast hknown := by
    have plain : ∀ b id, Respects .plain b (initializer id) := by
      intro b id
      unfold initializer
      infer_instance
    have := plain 0 id'
    have candid : Candid (globalInitializer id') := .enclosed (.globalInitializer id')
    refine ⟨fun hrun _ => ?_, habreast.accounted⟩
    obtain ⟨t₁, ht₁, rfl⟩ := (Enclosure.globalInitializer id').eq_ok.1 hrun
    -- Both walks change to the same function, so they are level there.
    have hlevel : Level { s with function := globalScope } { t with function := globalScope } :=
      { habreast.toLevel with }
    have hkeeps' := (plain 0 id').ok (Nat.zero_le _) ht₁
    rcases (agrees_initializer id id').run hlevel ht₁ with
      hdoomed | ⟨hl, hstuck⟩ | ⟨_, s₁, hs₁, hpos₁, -⟩
    · refine absurd ?_ hknown.ends
      unfold Doomed at *
      rwa [(Enclosure.globalInitializer id).ending_eq]
    · exact .inl ⟨rfl, hstuck.of_still rfl rfl⟩
    · have hkeeps := (plain 0 id).ok (Nat.zero_le _) hs₁
      have hle : s.pos ≤ s₁.pos := ((plain s.pos id).ok (s := { s with function := globalScope })
        (Nat.le_refl _) hs₁).onward (.inl rfl)
      have hlevel₁ := hlevel.keeps hkeeps hkeeps'.weaken hpos₁
      refine .inr ⟨(), { s₁ with function := s.function },
        (Enclosure.globalInitializer id).eq_ok.2 ⟨s₁, hs₁, rfl⟩, trivial,
        { hlevel₁ with }, ?_, hkeeps.wellFormed habreast.formed, hkeeps'.faithful habreast.faithful,
        habreast.inside, fun hk => ?_⟩
      · exact habreast.alike.control ((Enclosure.globalInitializer id).back s s₁ hkeeps.control)
          ((Enclosure.globalInitializer id').back t t₁ hkeeps'.control)
      -- An initial value declares nothing.
      · obtain ⟨hdeclared, -, -, -, -⟩ := hkeeps.plain (Nat.le_refl _)
        obtain ⟨-, hrecalled, -, -, -⟩ := hkeeps'.plain (Nat.le_refl _)
        exact (habreast.close hk).mono hdeclared hle hrecalled hkeeps'.table

theorem marches_computedValue (m : Modifiers) (id id' : Nat) (isInner : Bool) :
    Marches k true b o (computedValue m id isInner) (computedValue m id' isInner)
      (fun _ _ => True) fun _ => o := by
  unfold computedValue
  refine .ite (fun _ => marches_globalInitializer id id') fun _ => ?_
  have plain : ∀ b id, Respects .plain b (initializer id) := by
    intro b id
    unfold initializer
    infer_instance
  exact .of_agrees (agrees_initializer id id')

/-- The variable of an id has this type, where there is one. -/
def TypedAt (id : Nat) (type : ValueType) (s : State) : Prop :=
  ∀ v, s.table.var? id = some v → v.type = type

/-- A literal that the second walk has accepted suits its type. -/
theorem denotes_of_literalOperand {l : Token} {type : ValueType} {t' : State} {x : Operand}
    (h : literalOperand l type t = .ok x t') : Denotes l type := by
  unfold literalOperand at h
  split at h
  · next hstring => exact .inl hstring
  · cases hx : (literalValue? l).bind (numeralOperand? · type) with
    | some x => exact .inr ⟨x, hx⟩
    | none =>
      rw [hx] at h
      exact absurd h (Never.ne_ok _ _ _)

/-- The first walk gives a variable a literal that suits it. -/
theorem Abreast.literal (h : Abreast k o s t) {type : ValueType} {l : Token}
    (htype : TypedAt id type s) (hl : Denotes l type) : Abreast k o
      { s with
        table := s.table.modifyKind id (·.mapVariable fun v => { v with literal := some l }) }
      t := by
  -- The literal denotes a value of the type of its variable.
  have hfits : Fits (s.table.modifyKind id
      (·.mapVariable fun v => { v with literal := some l })) := by
    intro j v l' hv hl'
    rw [Table.var?, Table.kind?_modifyKind] at hv
    split at hv
    · next hj =>
      subst hj
      cases hkind : s.table.kind? id with
      | none =>
        rw [hkind] at hv
        cases hv
      | some kind =>
        rw [hkind] at hv
        cases kind with
        | var v₀ =>
          cases hv
          cases hl'
          rw [htype v₀ (by rw [Table.var?, hkind]; rfl)]
          exact hl
        | _ => cases hv
    · exact h.fits j v l' hv hl'
  -- A variable stays a variable, so no function has changed.
  have hformed : (s.table.modifyKind id
      (·.mapVariable fun v => { v with literal := some l })).WellFormed := by
    refine h.formed.modifyKind fun kind f hkind hf => ?_
    cases kind with
    | function f₀ =>
      cases hf
      exact h.formed.counts id f (by rw [Table.function?, hkind]; rfl)
    | _ => cases hf
  exact ⟨{ h.toLevel with fits := hfits }, h.alike.control rfl rfl, hformed, h.faithful, h.inside,
    fun hk => { h.close hk with }⟩

/-- What the second walk knows of is not broken. -/
theorem Known.modifyKind {f : SymbolKind → SymbolKind} (h : Known k (modifyKind id f s) t) :
    Walk.modifyKind id f s = .ok () { s with table := s.table.modifyKind id f } := by
  rcases modifyKind_cases id f s with hrun | hrun
  · exact hrun
  · rw [hrun] at h
    exact absurd (.inr rfl) h.ends

theorem marches_foldConstant (id id' : Nat) (l : Token) (type : ValueType) (index : Nat) :
    MarchesFrom (fun s _ => TypedAt id type s) k false b o (foldConstant id l type index)
      (foldConstant id' l type index) (fun _ _ => True) fun _ => o where
  run {s t} htype _ habreast hknown := by
    refine ⟨fun hrun _ => ?_, habreast.accounted⟩
    unfold foldConstant at hknown hrun ⊢
    rw [emitting_bind_emit habreast.second, if_pos rfl] at hrun
    rw [emitting_bind_declare habreast.first, if_neg Bool.false_ne_true] at hknown ⊢
    -- The second walk checks the literal that the first stores.
    split at hrun
    · obtain ⟨_, _, herror, -⟩ := bind_eq_ok.1 hrun
      exact absurd herror (Never.ne_ok _ _ _)
    · obtain ⟨x, t₁, ht₁, hrun⟩ := bind_eq_ok.1 hrun
      cases hrun
      have plain : Respects .plain 0 (literalOperand l type) := inferInstance
      have still : Still .emit (literalOperand l type) := inferInstance
      have same : Keeps .plain 0 none s s := .refl (fun _ h => by cases h) (Nat.zero_le _)
      have hpos := (still.stays habreast.second ht₁).1.trans habreast.pos
      have habreast₁ := habreast.keeps same (plain.ok (Nat.zero_le _) ht₁) hpos (Nat.le_refl _)
      refine .inr ⟨(), _, hknown.modifyKind, trivial, ?_⟩
      exact habreast₁.literal htype (denotes_of_literalOperand ht₁)

/-- A walk that leaves the table as it is. -/
class SameTable (x : Walk α) : Prop where
  eq : ∀ {s a s'}, x s = .ok a s' → s'.table = s.table

instance (a : α) : SameTable (pure a : Walk α) := ⟨fun h => by cases h; rfl⟩

instance (f : State → α) : SameTable (view f) := ⟨fun h => by cases h; rfl⟩

instance (x : Walk α) (f : α → Walk β) [hx : SameTable x] [hf : ∀ a, SameTable (f a)] :
    SameTable (x >>= f) where
  eq hrun := by
    obtain ⟨a, s₁, hs₁, hrun⟩ := bind_eq_ok.1 hrun
    exact ((hf a).eq hrun).trans (hx.eq hs₁)

instance (p : Prop) [Decidable p] (x y : Walk α) [hx : SameTable x] [hy : SameTable y] :
    SameTable (if p then x else y) := by
  split
  · exact hx
  · exact hy

instance : SameTable position := inferInstanceAs (SameTable (view _))
instance : SameTable peek := inferInstanceAs (SameTable (view _))
instance (index : Nat) : SameTable (tokenAt index) := inferInstanceAs (SameTable (view _))
instance : SameTable skip := ⟨fun h => by cases h; rfl⟩
instance (pos : Nat) : SameTable (moveTo pos) := ⟨fun h => by cases h; rfl⟩

instance (kind : Kind) : SameTable (check kind) := by
  unfold check
  infer_instance

instance (kind : Kind) : SameTable (eat kind) := by
  unfold eat
  infer_instance

instance (ends : List Kind) : SameTable (foldedLiteral? ends) := by
  unfold foldedLiteral?
  have rest : ∀ isNegative place (l : Option Token) (next : Option Kind),
      SameTable (match l, next with
        | some t, some next =>
          if t.kind.isLiteral && (!isNegative || t.kind.isNumericLiteral) &&
              ends.contains next then do
            moveTo (place + 1)
            return some (if isNegative then negated t else t)
          else return none
        | _, _ => (return none : Walk (Option Token))) := by
    intro isNegative place l next
    split <;> infer_instance
  infer_instance

instance (isInner : Bool) : SameTable (makeVisibleIf isInner id) where
  eq {s _ _} hrun := by
    unfold makeVisibleIf at hrun
    split at hrun
    · obtain ⟨blocks, hrun'⟩ := makeVisible_eq id s
      cases hrun'.symm.trans hrun
      rfl
    · cases hrun
      rfl

/-- The type of a variable is known behind what leaves the table as it is. -/
theorem TypedAt.same {x : Walk α} [hx : SameTable x] {type : ValueType} {a : α}
    (h : TypedAt id type s) (hrun : x s = .ok a s') : TypedAt id type s' := by
  unfold TypedAt
  rw [hx.eq hrun]
  exact h

theorem MarchesFrom.loosen {P : State → State → Prop} {x : Walk α} {y : Walk β} {Q : α → β → Prop}
    {o' : β → Nat → Prop} (h : MarchesFrom P k false b o x y Q o') :
    MarchesFrom P k l b o x y Q o' where
  run hP hpos habreast hknown := by
    have hmeets := h.run hP hpos habreast hknown
    refine ⟨fun hrun hlog => .inr ((hmeets.ok hrun hlog).resolve_left fun h => ?_), hmeets.stop⟩
    cases h.1

theorem MarchesFrom.typed_first {x : Walk α} {f : α → Walk Unit} {g : α → Walk Unit} [Blind x]
    [plain : ∀ b, Respects .plain b x] [SameTable x] {type : ValueType} {Q : Unit → Unit → Prop}
    {o' : Unit → Nat → Prop} (rf : ∀ b a, Respects .any b (f a)) (rg : ∀ a, Respects .any 0 (g a))
    (h : ∀ a, MarchesFrom (fun s _ => TypedAt id type s) k l b o (f a) (g a) Q o') :
    MarchesFrom (fun s _ => TypedAt id type s) k l b o (x >>= f) (x >>= g) Q o' := by
  have any : ∀ b, Respects .any b x := fun b => (plain b).weaken
  refine .bind (R := Eq) (absurd · Bool.false_ne_true) (.of fun _ _ _ => .of_agrees .blind)
    (fun h hs _ => h.same hs) ?_
  rintro a _ rfl
  exact h a

theorem MarchesFrom.typed_blind {x : Walk α} {f : α → Walk Unit} {g : α → Walk Unit} [Blind x]
    [∀ b, Respects .plain b x] [SameTable x] [rf : ∀ b a, Respects .any b (f a)]
    [rg : ∀ a, Respects .any 0 (g a)] {type : ValueType} {Q : Unit → Unit → Prop}
    {o' : Unit → Nat → Prop}
    (h : ∀ a, MarchesFrom (fun s _ => TypedAt id type s) k l b o (f a) (g a) Q o') :
    MarchesFrom (fun s _ => TypedAt id type s) k l b o (x >>= f) (x >>= g) Q o' :=
  .typed_first rf rg h

theorem marches_initialValue (m : Modifiers) (type : ValueType) (id id' : Nat) (isInner : Bool) :
    MarchesFrom (fun s _ => TypedAt id type s) k true b o (initialValue m type id isInner)
      (initialValue m type id' isInner) (fun _ _ => True) fun _ => o := by
  unfold initialValue
  refine .typed_first (fun b start => .seq fun literal => ?_)
    (fun start => .seq fun literal => ?_) fun start => .typed_first
    (fun b literal => ?_) (fun literal => ?_) fun literal => ?_
  iterate 4
    cases literal <;> infer_instance
  cases literal with
  | some l => exact (marches_foldConstant id id' l type start).loosen
  | none => exact .of fun _ _ _ => marches_computedValue m id id' isInner

theorem marches_variableValue (m : Modifiers) (type : ValueType) (name : String)
    (index id id' : Nat) (isInner : Bool) :
    MarchesFrom (fun s _ => TypedAt id type s) k true b o
      (variableValue m type name index id isInner)
      (variableValue m type name index id' isInner) (fun _ _ => True) fun _ => o := by
  unfold variableValue
  refine .typed_blind fun isGiven => .ite (fun _ => marches_initialValue ..) fun _ => ?_
  refine .of fun _ _ _ => .ite (fun _ => .never) fun _ => .pure trivial fun _ h => h

/-! ### Variables -/

/-- Symbols that are there keep their kind when others are added. -/
theorem attachMetadata_kind? {owner : Nat} {u : Unit} (h : attachMetadata owner s = .ok u s')
    (hid : id < s.table.size) : s'.table.kind? id = s.table.kind? id := by
  have each : ∀ (entries : List (String × String)) (s s' : State),
      (entries.forM fun entry => do
        let _ ← addSymbol owner entry.1 (.metadata entry.2) : Walk Unit) s = .ok () s' →
      id < s.table.size → s'.table.kind? id = s.table.kind? id := by
    intro entries
    induction entries with
    | nil =>
      intro s s' h _
      cases h
      rfl
    | cons entry entries ih =>
      intro s s' h hid
      obtain ⟨_, s₁, h₁, h⟩ := bind_eq_ok.1 h
      obtain ⟨_, s₂, h₂, h₁⟩ := bind_eq_ok.1 h₁
      cases h₁
      obtain ⟨-, -, rfl⟩ := addSymbol_eq_ok h₂
      rw [ih _ s' h (by rw [Table.size_add]; omega), Table.kind?_add, if_neg (by omega)]
  unfold attachMetadata at h
  rw [view_bind, change_bind] at h
  exact each s.metadata { s with metadata := [] } s' h hid

instance (owner : Nat) : Still .declare (attachMetadata owner) := by
  have emptied : Still .declare (change fun s => { s with metadata := [] }) :=
    .of_eq fun s => ⟨(), _, rfl, rfl, rfl⟩
  unfold attachMetadata
  have each : ∀ entry : String × String, Still .declare (do
      let _ ← addSymbol owner entry.1 (.metadata entry.2)) := inferInstance
  infer_instance

instance (kind : VariableKind) : Still .declare (allocate kind) := by
  have memory : Still .declare allocateMemory := .of_eq fun s => ⟨_, _, rfl, rfl, rfl⟩
  have stack : Still .declare allocateLocal := .of_eq fun s => ⟨_, _, rfl, rfl, rfl⟩
  unfold allocate
  infer_instance

/-- A symbol with its metadata. -/
theorem annotated_kind? {name : String} {kind : SymbolKind}
    (h : (do let id ← addSymbol scope name kind; attachMetadata id; return id : Walk Nat) s =
      .ok id s₁) :
    s₁.table.kind? id = some kind := by
  obtain ⟨_, s', hadd, h⟩ := bind_eq_ok.1 h
  obtain ⟨_, s'', hrun, h⟩ := bind_eq_ok.1 h
  cases h
  obtain ⟨-, rfl, rfl⟩ := addSymbol_eq_ok hadd
  rw [attachMetadata_kind? hrun (by rw [Table.size_add]; omega), Table.kind?_add, if_pos rfl]

/-- A variable of a type. -/
def IsVariableOf (type : ValueType) (kind : SymbolKind) : Prop := ∃ v, kind = .var v ∧ v.type = type

theorem IsVariableOf.isTarget {type : ValueType} {kind : SymbolKind} (h : IsVariableOf type kind) :
    kind.isTarget = false := by
  obtain ⟨v, rfl, -⟩ := h
  rfl

theorem IsVariableOf.typedAt {type : ValueType}
    (h : ∃ kind, s.table.kind? id = some kind ∧ IsVariableOf type kind) : TypedAt id type s := by
  obtain ⟨_, hkind, v, rfl, htype⟩ := h
  intro v' hv'
  rw [Table.var?, hkind] at hv'
  cases hv'
  exact htype

theorem brings_createVariable (m : Modifiers) (type : ValueType) (name : String) (isInner : Bool)
    (owner : Nat) : Brings (IsVariableOf type) (createVariable m type name isInner owner) := by
  have still : Still .declare (createVariable m type name isInner owner) := by
    unfold createVariable
    infer_instance
  refine .of_plain fun s id s₁ hrun => ?_
  unfold createVariable at hrun
  obtain ⟨storage, s', -, hrun⟩ := bind_eq_ok.1 hrun
  exact ⟨_, annotated_kind? hrun, _, rfl, rfl⟩

instance : Checks inFunction := inferInstanceAs (Checks (view _))

instance (name : String) : Checks (isTaken name) := by
  unfold isTaken
  infer_instance

instance (p : Pass) (isInner : Bool) : Still p (makeVisibleIf isInner id) := by
  have visible : Still p (makeVisible id) := by
    refine .of_eq fun s => ?_
    obtain ⟨blocks, hrun⟩ := makeVisible_eq id s
    exact ⟨(), _, hrun, rfl, rfl⟩
  unfold makeVisibleIf
  infer_instance

theorem marches_variableDeclaration {index : Nat} (hindex : index < b) (m : Modifiers)
    (type : ValueType) (name : Token) : Marches k true b o (variableDeclaration m type name index)
      (variableDeclaration m type name index) (fun _ _ => True) fun _ => o := by
  unfold variableDeclaration declareVariable
  simp only [bind_assoc]
  refine .inFunction fun isInner => .declaring ?_
  refine .bind_view (R := fun _ _ => True) (fun _ _ _ => trivial) fun owner owner' _ => ?_
  refine .keyed_from hindex (brings_createVariable m type name.text isInner owner)
    (fun _ h => h.isTarget) fun id id' => ?_
  -- From here on the type of the variable is known.
  refine MarchesFrom.mono (S := fun s _ => TypedAt id type s) ?_ fun s t h =>
    IsVariableOf.typedAt h.1
  refine .bind (R := fun _ _ => True) (absurd · Bool.false_ne_true)
    (.of fun _ _ _ => .of_agrees .still) (fun h hs _ => h.same hs) fun _ _ _ => ?_
  exact marches_variableValue ..

/-- Making or finding a symbol takes no token. -/
instance (index : Nat) (role : Role) (create : Walk Nat) [forward : Forward b create] :
    Forward b (keyed index role create) where
  le {s _ _} hpos hrun := by
    rcases s.pass_cases with hpass | hpass
    · unfold keyed at hrun
      rw [emitting_bind_declare hpass, if_neg Bool.false_ne_true, record] at hrun
      obtain ⟨id, s₁, hs₁, hrun⟩ := bind_eq_ok.1 hrun
      cases hrun
      have hle := forward.le hpos hs₁
      exact hle
    · obtain ⟨d, -, -, rfl⟩ := found_of_keyed hpass hrun
      exact hpos

instance (type : ValueType) (name : Token) (index : Nat) :
    Forward b (variableDeclaration m type name index) := by
  have create : ∀ isInner owner, Respects .any b
      (createVariable m type name.text isInner owner) := by
    intro isInner owner
    have plain : Respects .plain b (createVariable m type name.text isInner owner) := inferInstance
    exact plain.weaken
  unfold variableDeclaration declareVariable
  infer_instance

theorem expectIdentifier_takes {name : Token} (h : expectIdentifier s = .ok name s') :
    s.pos < s'.pos := by
  obtain ⟨-, -, rfl⟩ := expect_eq_ok h
  exact Nat.lt_succ_self _

theorem marches_moreVariables (m : Modifiers) (type : ValueType) : Marches k true b o
    (moreVariables m type) (moreVariables m type) (fun _ _ => True) fun _ => o := by
  have respects : ∀ g b, Grade.Within g .loud → Respects g b (do
      if ← eat .comma then
        let index ← position
        variableDeclaration m type (← expectIdentifier) index
        return Turn.again ()
      else return (Turn.done () : Turn Unit Unit)) := fun _ _ _ => inferInstance
  unfold moreVariables
  refine (Marches.loop_loose (fun b _ => respects .any b inferInstance)
    (fun _ => respects .loud 0 inferInstance) (fun _ => inferInstance)
    (fun _ => .bind_blind fun isMore => .ite (fun _ => ?_) fun _ => .pure rfl fun _ h => h) ()).mono
    (fun _ _ _ => trivial) fun _ _ h => h
  refine .position expectIdentifier_takes fun index name => ?_
  exact .bind_loose (marches_variableDeclaration (Nat.lt_succ_self _) m type name) fun _ _ _ =>
    .pure rfl fun _ h => h

theorem inStep_variableDeclarations {index : Nat} (hindex : index < b) (m : Modifiers)
    (type : ValueType) (name : Token) : InStep k b o (variableDeclarations m type name index)
      (variableDeclarations m type name index) o := by
  unfold variableDeclarations checkVariableFlags
  cases m.flags != {} with
  -- The first walk turns these flags down.
  | true =>
    refine .refused fun s hpass => ?_
    obtain ⟨s', hrun, hlog⟩ := @reject_of_declare Unit index .invalidFlags
      "function modifiers cannot be applied to variables" s hpass
    rw [if_pos rfl, bind_of_error hrun]
    exact hlog
  | false =>
    rw [if_neg Bool.false_ne_true, pure_bind]
    refine .bind_loose (marches_variableDeclaration hindex m type name) fun _ _ _ => ?_
    exact .bind_loose (marches_moreVariables m type) fun _ _ _ => .of_agrees .same

/-! ### Enumerations -/

/-- The values that members get by themselves fit. -/
theorem denotes_automaticValue (member : Token) (h : ordinal < 31) :
    Denotes (automaticValue member ordinal) .int := by
  have values : ∀ ordinal < 31, ((Number.Numeral.ofText? (toString (Number.pow2 ordinal))).bind
      (numeralOperand? · .int)).isSome = true := by decide +kernel
  exact .inr (Option.isSome_iff_exists.1 (values ordinal h))

/-- The first walk alone gives a member its value. -/
theorem marches_automaticValue (id id' : Nat) (member : Token) (h : ordinal < 31) :
    MarchesFrom (fun s _ => TypedAt id .int s) k true b o
      (declaring (modifyVariable id fun v =>
        { v with literal := some (automaticValue member ordinal) }))
      (declaring (modifyVariable id' fun v =>
        { v with literal := some (automaticValue member ordinal) }))
      (fun _ _ => True) fun _ => o where
  run {s t} htype _ habreast hknown := by
    rw [declaring_of_emit habreast.second]
    rw [declaring_of_declare habreast.first] at hknown ⊢
    refine ⟨fun hrun _ => ?_, fun hrun => by cases hrun⟩
    cases hrun
    -- An automatic value is in the range of its type.
    exact .inr ⟨(), _, hknown.modifyKind, trivial,
      habreast.literal htype (denotes_automaticValue member h)⟩

theorem marches_enumerationValue (id id' : Nat) :
    MarchesFrom (fun s _ => TypedAt id .int s) k true b o
    (enumerationValue id) (enumerationValue id') (fun _ _ => True) fun _ => o := by
  have plain : ∀ b id, Respects .plain b (initializer id) := by
    intro b id
    unfold initializer
    infer_instance
  have any : ∀ b id, Respects .any b (initializer id) := fun b id => (plain b id).weaken
  unfold enumerationValue
  refine .typed_first (fun b start => .seq fun literal => ?_)
    (fun start => .seq fun literal => ?_) fun start => .typed_first
    (fun b literal => ?_) (fun literal => ?_) fun literal => ?_
  iterate 4
    cases literal <;> infer_instance
  cases literal with
  | some l => exact (marches_foldConstant id id' l .int start).loosen
  | none => exact .of fun _ _ _ => .of_agrees (agrees_initializer id id')

theorem brings_member (enumeration : Nat) (name : String) : Brings (IsVariableOf .int) (do
    let place ← allocateMemory
    addSymbol enumeration name (.var
      { kind := .constant, type := .int, isConstant := true, storage := .memory place })) := by
  have allocates : Still .declare allocateMemory := .of_eq fun s => ⟨_, _, rfl, rfl, rfl⟩
  refine .of_plain fun s id s₁ hrun => ?_
  obtain ⟨place, s', -, hrun⟩ := bind_eq_ok.1 hrun
  obtain ⟨-, rfl, rfl⟩ := addSymbol_eq_ok hrun
  exact ⟨_, by rw [Table.kind?_add, if_pos rfl], _, rfl, rfl⟩

theorem marches_enumerationMember (enumeration enumeration' ordinal : Nat) : Marches k true b o
    (enumerationMember enumeration ordinal) (enumerationMember enumeration' ordinal)
    (fun _ _ => True) fun _ => o := by
  unfold enumerationMember declareMember
  simp only [bind_assoc]
  refine .position expectIdentifier_takes fun index name => .declaring ?_
  refine .keyed_from (Nat.lt_succ_self _) (brings_member enumeration name.text)
    (fun _ h => h.isTarget) fun id id' => ?_
  refine MarchesFrom.mono (S := fun s _ => TypedAt id .int s) ?_ fun s t h =>
    IsVariableOf.typedAt h.1
  refine .typed_blind fun isGiven => .ite (fun _ => marches_enumerationValue id id') fun _ => ?_
  refine .ite (fun _ => .of fun _ _ _ => .never) fun h => ?_
  exact marches_automaticValue id id' name (Nat.lt_of_not_le h)

instance : Mark .identifier := ⟨by decide⟩

theorem inStep_enumerationMembers (enumeration enumeration' : Nat) :
    InStep k b o (enumerationMembers enumeration) (enumerationMembers enumeration') o := by
  unfold enumerationMembers
  refine .bind_loose (R := Eq) (Marches.loop_loose (fun b ordinal => inferInstance)
    (fun ordinal => inferInstance) (fun ordinal => inferInstance) (fun ordinal => ?_) 0)
    fun _ _ _ => .of_agrees .same
  refine .bind_blind fun isOver => .ite (fun _ => .pure rfl fun _ h => h) fun _ => ?_
  refine .bind_loose (marches_enumerationMember enumeration enumeration' ordinal) fun _ _ _ => ?_
  exact .bind_blind fun isMore => .ite (fun _ => .pure rfl fun _ h => h) fun _ =>
    .pure rfl fun _ h => h

/-- A symbol with its metadata, which is no target. -/
theorem brings_annotated {name : String} {kind : SymbolKind}
    (hkind : kind.isTarget = false)
    [Respects .plain 0
      (do let id ← addSymbol scope name kind; attachMetadata id; return id : Walk Nat)] :
    Brings (·.isTarget = false)
      (do let id ← addSymbol scope name kind; attachMetadata id; return id) := by
  refine .of_plain fun s id s₁ hrun => ⟨kind, annotated_kind? hrun, hkind⟩

theorem inStep_enumerationDeclaration :
    InStep k b o enumerationDeclaration enumerationDeclaration o := by
  unfold enumerationDeclaration declareEnumeration
  simp only [bind_assoc]
  refine .bind_blind fun _ => .position expectIdentifier_takes fun index name => .declaring ?_
  refine .bind_view (R := fun _ _ => True) (fun _ _ _ => trivial) fun scope scope' _ => ?_
  refine .keyed_closed (Nat.lt_succ_self _) (brings_annotated rfl)
    (fun _ h => h) fun id id' hid => ?_
  exact .bind_blind fun _ => (inStep_enumerationMembers id id').inScope hid

/-! ### Metadata -/

instance : Blind namespacePath := by
  unfold namespacePath
  infer_instance

instance : Blind metadataEntry := by
  unfold metadataEntry
  refine .seq fun key => .seq fun _ => .seq fun i => ?_
  refine .seq fun value => ?_
  cases value <;> infer_instance

theorem inStep_metadataBlock : InStep k b o metadataBlock metadataBlock o := by
  have still : ∀ entries, Still .declare (change fun s =>
      { s with metadata := s.metadata ++ entries }) := fun entries => .of_eq fun s =>
        ⟨(), _, rfl, rfl, rfl⟩
  unfold metadataBlock requireNoFunction
  rw [bind_assoc]
  refine .inFunction fun isInner => ?_
  cases isInner with
  | true =>
    rw [if_pos rfl]
    exact .never
  | false =>
    rw [if_neg Bool.false_ne_true, pure_bind]
    refine .bind_blind fun _ => .bind_blind fun entries => .bind_blind fun _ => ?_
    unfold declaring
    refine .emitting ?_
    rw [Bool.not_false, Bool.not_true, if_pos rfl, if_neg Bool.false_ne_true]
    exact .of_agrees .still

/-! ### States -/

instance : Blind defaultWords := by
  have turns : ∀ words : Bool × Bool, Blind (match words with
      | (engine, editor) => do
        if ← eat .kwEngine then return Turn.again (true, editor)
        else if ← eat .kwEditor then return Turn.again (engine, true)
        else return Turn.done (engine, editor)) := by
    intro words
    dsimp only
    infer_instance
  unfold defaultWords
  infer_instance

instance (isClaimed : Bool) (current : Option Nat) (what : String) (index : Nat) :
    Checks (checkDefault isClaimed current what index) := by
  unfold checkDefault
  split <;> infer_instance

instance (p : Pass) (engine editor : Bool) [Still p (attachMetadata id)] :
    Still p (introduceState engine editor id) := by
  have claims : Still p (change fun s => { s with
      engineState := if engine then some id else s.engineState
      editorState := if editor then some id else s.editorState }) :=
    .of_eq fun s => ⟨(), _, rfl, rfl, rfl⟩
  unfold introduceState
  infer_instance

theorem brings_state (scope : Nat) (name : String) (engine editor : Bool) :
    Brings (·.isTarget = false) (do
      let id ← addSymbol scope name (.state engine editor)
      introduceState engine editor id
      return id) := by
  refine .of_plain fun s id s₁ hrun => ?_
  obtain ⟨_, s', hadd, hrun⟩ := bind_eq_ok.1 hrun
  obtain ⟨_, s'', hintroduce, hrun⟩ := bind_eq_ok.1 hrun
  cases hrun
  obtain ⟨_, s₂, hattach, hclaim⟩ := bind_eq_ok.1 hintroduce
  cases hclaim
  have hkind : (s₂.table.kind? id) = some (.state engine editor) :=
    annotated_kind? (bind_eq_ok.2 ⟨_, _, hadd, bind_eq_ok.2 ⟨_, _, hattach, rfl⟩⟩)
  exact ⟨_, hkind, rfl⟩

section Inner

variable (inner : Walk Unit) [∀ b, Respects .any b inner]
  (hinner : ∀ k b o, InStep k b o inner inner o)
include hinner

theorem inStep_stateDeclaration :
    InStep k b o (stateDeclaration inner) (stateDeclaration inner) o := by
  unfold stateDeclaration declareState
  simp only [bind_assoc]
  refine .bind_blind fun _ => .bind_blind fun isDefault => ?_
  refine .position expectIdentifier_takes fun index name => .declaring ?_
  refine .bind_view (R := fun _ _ => True) (fun _ _ _ => trivial) fun scope scope' _ => ?_
  refine .keyed_closed (Nat.lt_succ_self _) (brings_state scope name.text isDefault.1 isDefault.2)
    (fun _ h => h) fun id id' hid => ?_
  exact .bind_blind fun _ => (inStep_blockContents inner hinner).inScope hid

end Inner

/-! ### Namespaces -/

/-- What is a match stays one in a table that grows. -/
theorem isMatch_of_grows {t : Table} (hgrows : t.Grows t') {name : String}
    (hfilter : ∀ x x' : Symbol, x.Grows x' → filter x' = filter x) (hid : id < t.size) :
    t'.isMatch name filter id = t.isMatch name filter id := by
  obtain ⟨x, hx⟩ := Table.exists_get? hid
  obtain ⟨x', hx', g⟩ := hgrows id x hx
  simp only [Table.isMatch, hx, hx', g.identifier, hfilter x x' g]

theorem find?_isMatch_of_grows {t : Table} (hgrows : t.Grows t') {name : String}
    (hfilter : ∀ x x' : Symbol, x.Grows x' → filter x' = filter x) {ids : List Nat}
    (hids : ∀ c ∈ ids, c < t.size) :
    ids.find? (t'.isMatch name filter) = ids.find? (t.isMatch name filter) := by
  induction ids with
  | nil => rfl
  | cons c ids ih =>
    rw [List.find?_cons, List.find?_cons, ih fun c hc => hids c (List.mem_cons_of_mem _ hc),
      isMatch_of_grows hgrows hfilter (hids c List.mem_cons_self)]

/-- What is found first is still found first, because new symbols go to the end. -/
theorem find?_of_grows {t : Table} (hgrows : t.Grows t') (hformed : t.WellFormed) {name : String}
    (hfilter : ∀ x x' : Symbol, x.Grows x' → filter x' = filter x)
    (h : t.find? scope name filter = some id) : t'.find? scope name filter = some id := by
  unfold Table.find? at *
  cases hx : t.get? scope with
  | none =>
    rw [Table.children, hx] at h
    cases h
  | some x =>
    obtain ⟨x', hx', g⟩ := hgrows scope x hx
    -- What is new comes behind, and what was there matches as before.
    obtain ⟨new, hnew⟩ := g.children
    rw [Table.children_of_get? hx', ← hnew, List.find?_append, ← Table.children_of_get? hx,
      find?_isMatch_of_grows hgrows hfilter fun c hc => hformed.lt_of_mem_children hc, h]
    rfl

/-- A new symbol is found if there was none of its name before. -/
theorem find?_add {t : Table} (hformed : t.WellFormed) (hscope : scope < t.size) {name : String}
    {kind : SymbolKind} (hfilter : ∀ x x' : Symbol, x.Grows x' → filter x' = filter x)
    (hnew : filter (t.newcomer scope name kind) = true) (h : t.find? scope name filter = none) :
    (t.add (some scope) name kind).find? scope name filter = some t.size := by
  unfold Table.find? at *
  rw [Table.children_add hscope, if_pos rfl, List.find?_append,
    find?_isMatch_of_grows (Table.grows_add scope name kind) hfilter
      fun c hc => hformed.lt_of_mem_children hc, h, Option.none_or, List.find?_singleton]
  have hmatch : (t.add (some scope) name kind).isMatch name filter t.size = true := by
    unfold Table.isMatch
    rw [Table.get?_add, if_pos rfl]
    dsimp only
    rw [hnew, Bool.and_true]
    exact beq_self_eq_true name
  rw [hmatch]
  rfl

/-- What a name within a scope must not be, unless it is a namespace. -/
def isNamed (x : Symbol) : Bool := isVariable x || x.kind.isContainer

theorem isNamed_of_grows (x x' : Symbol) (g : x.Grows x') : isNamed x' = isNamed x := by
  have htag := g.kind.tag
  unfold isNamed isVariable
  cases hk : x.kind <;> cases hk' : x'.kind <;> first | rfl | (rw [hk, hk'] at htag; cases htag)

theorem isMatch_eq_some {t : Table} {name : String} (h : t.find? scope name filter = some id) :
    ∃ x, t.get? id = some x ∧ filter x = true := by
  have hmatch := List.find?_some h
  unfold Table.isMatch at hmatch
  cases hx : t.get? id with
  | none =>
    rw [hx] at hmatch
    cases hmatch
  | some x =>
    rw [hx] at hmatch
    exact ⟨x, rfl, (Bool.and_eq_true _ _ ▸ hmatch).2⟩

theorem symbol_of_get? (h : s.table.get? id = some x) : symbol id s = .ok x s := by
  unfold symbol
  rw [h]

theorem doomed_symbol (h : s.table.get? id = none) : Doomed (symbol id s) := by
  unfold symbol
  rw [h]
  exact .inr rfl

/-- What a namespace of a name depends on, unless the walk is broken. -/
theorem namespaceWithin_cases (scope index : Nat) (name : Token) (s : State) :
    namespaceWithin scope name index s =
      (match s.table.find? scope name.text isNamed with
      | some id => do
        if (← symbol id).kind.isSpace then return id
        else
          reject index .duplicateSymbol
            s!"'{name.text}' is already declared and is not a namespace"
      | none => do
        let id ← addSymbol scope name.text .space
        attachMetadata id
        return id : Walk Nat) s ∨ namespaceWithin scope name index s = .error .broken s := by
  unfold namespaceWithin
  rcases findChild_cases scope name.text isNamed s with hfind | hfind
  · exact .inl (bind_of_ok hfind)
  · exact .inr (bind_of_error hfind)

/-- Where a namespace of a name is, that is the outcome. -/
theorem namespaceWithin_of_find? {index : Nat} {name : Token}
    (hfind : s.table.find? scope name.text isNamed = some id) (hx : s.table.get? id = some x)
    (hspace : x.kind.isSpace = true) :
    namespaceWithin scope name index s = .ok id s ∨
      namespaceWithin scope name index s = .error .broken s := by
  rcases namespaceWithin_cases scope index name s with hrun | hrun
  · rw [hfind] at hrun
    dsimp only at hrun
    rw [bind_of_ok (symbol_of_get? hx), if_pos hspace] at hrun
    exact .inl hrun
  · exact .inr hrun

/-- A namespace is made by the first walk at the latest, and the second finds the same. -/
theorem Abreast.namespaceWithin (h : Abreast .close o s t) {index : Nat} {name : Token}
    (hknown : Known .close (namespaceWithin scope name index s) t) :
    ∃ id s', Walk.namespaceWithin scope name index s = .ok id s' ∧
      (Walk.namespaceWithin scope name index t = .ok id t ∨
        Walk.namespaceWithin scope name index t = .error .broken t) ∧ Abreast .close o s' t := by
  -- Once the first walk has a namespace that it finds, so has the second.
  have again : ∀ {u : Table} {x : Symbol} {id : Nat}, u.WellFormed → u.Grows t.table →
      u.find? scope name.text isNamed = some id → u.get? id = some x → x.kind.isSpace = true →
      Walk.namespaceWithin scope name index t = .ok id t ∨
        Walk.namespaceWithin scope name index t = .error .broken t := by
    intro u x id hformed hgrows hfind hx hspace
    obtain ⟨x', hx', g⟩ := hgrows id x hx
    exact namespaceWithin_of_find? (find?_of_grows hgrows hformed isNamed_of_grows hfind) hx'
      ((isSpace_eq_of_tag g.kind.tag).trans hspace)
  rcases namespaceWithin_cases scope index name s with heq | hbroken
  · cases hfind : s.table.find? scope name.text isNamed with
    | some id =>
      obtain ⟨x, hx, -⟩ := isMatch_eq_some hfind
      rw [hfind] at heq
      dsimp only at heq
      rw [bind_of_ok (symbol_of_get? hx)] at heq
      cases hspace : x.kind.isSpace with
      | true =>
        rw [if_pos hspace] at heq
        rw [heq] at hknown
        exact ⟨id, s, heq, again h.formed (hknown.holds rfl).table hfind hx hspace, h⟩
      | false =>
        -- The name is taken by something else, which the first walk has reported.
        rw [if_neg (by rw [hspace]; exact Bool.false_ne_true)] at heq
        rw [heq] at hknown
        obtain ⟨s', hrun, hlog⟩ := @reject_of_declare Nat index .duplicateSymbol
          s!"'{name.text}' is already declared and is not a namespace" s h.first
        rw [hrun] at hknown
        cases hlog.symm.trans hknown.log
    | none =>
      rw [hfind] at heq
      dsimp only at heq
      rw [heq] at hknown ⊢
      have plain : Respects .plain 0 (do
          let id ← addSymbol scope name.text .space
          attachMetadata id
          return id : Walk Nat) := inferInstance
      have still : Still .declare (do
          let id ← addSymbol scope name.text .space
          attachMetadata id
          return id : Walk Nat) := inferInstance
      rcases doomed_or_ok (still.lasts rfl s h.first) with hdoomed | ⟨id, s₁, hrun⟩
      · exact absurd hdoomed hknown.ends
      · rw [hrun] at hknown
        obtain ⟨_, s₀, hadd, hattach⟩ := bind_eq_ok.1 hrun
        obtain ⟨_, _, hattach, hpure⟩ := bind_eq_ok.1 hattach
        cases hpure
        obtain ⟨hscope, rfl, rfl⟩ := addSymbol_eq_ok hadd
        have attaches : Respects .any 0 (attachMetadata s.table.size) := inferInstance
        have hgrows := (attaches.ok (Nat.zero_le _) hattach).table.trans (hknown.holds rfl).table
        have hkeeps := plain.ok (Nat.zero_le _) hrun
        have hpos := (still.stays h.first hrun).1
        have same : Keeps .plain 0 none t t := .refl (fun _ h => by cases h) (Nat.zero_le _)
        refine ⟨s.table.size, s₁, hrun, ?_,
          h.keeps hkeeps same (h.pos.trans hpos.symm) (Nat.le_of_eq hpos.symm)⟩
        exact again (h.formed.add hscope name.text (by intro f hf; cases hf)) hgrows
          (find?_add h.formed hscope isNamed_of_grows rfl hfind)
            (by rw [Table.get?_add, if_pos rfl]) rfl
  · rw [hbroken] at hknown
    exact absurd (.inr rfl) hknown.ends

theorem marches_namespaceWithin (scope : Nat) (name : Token) (index : Nat) :
    Marches .close false b o
    (namespaceWithin scope name index) (namespaceWithin scope name index) Eq fun _ => o where
  run _ habreast hknown := by
    obtain ⟨_, s', hs', ht' | ht', habreast'⟩ := habreast.namespaceWithin hknown <;>
      refine ⟨fun hrun _ => ?_, fun hrun => ?_⟩ <;> cases ht'.symm.trans hrun
    · exact .inr ⟨_, s', hs', rfl, habreast'⟩
    · exact ⟨nofun, nofun⟩

theorem marches_namespaceOf (path : List Token) (index : Nat) : Marches .close false b o
    (namespaceOf path index) (namespaceOf path index) Eq fun _ => o := by
  have folds : ∀ b (path : List Token) scope, Respects .any b
      (path.foldlM (fun scope name => namespaceWithin scope name index) scope) :=
    fun b path scope => .foldlM (fun _ _ => inferInstance) scope
  have within : ∀ scope, Marches .close false b o
      (path.foldlM (fun scope name => namespaceWithin scope name index) scope)
      (path.foldlM (fun scope name => namespaceWithin scope name index) scope) Eq fun _ => o := by
    intro scope
    induction path generalizing scope with
    | nil => exact .pure rfl fun _ h => h
    | cons name path ih =>
      refine .bind (marches_namespaceWithin scope name index) ?_
      rintro scope' _ rfl
      exact ih scope'
  unfold namespaceOf
  refine .bind_view (R := Eq) (fun s t habreast => (habreast.alike.scope rfl).symm) ?_
  rintro scope _ rfl
  exact within scope

/-- Where namespaces may be declared, in the scope of a symbol. -/
def State.isNamespaceLevel (s : State) (x : Symbol) : Bool :=
  !(s.function != globalScope) && (s.scope == globalScope || x.kind.isSpace)

theorem requireNamespaceLevel_eq {index : Nat} (h : s.table.get? s.scope = some x) :
    requireNamespaceLevel index s =
      (if !s.isNamespaceLevel x then
        errorAt index .invalidScope "namespaces can only be declared at global or namespace scope"
      else pure () : Walk Unit) s := by
  unfold requireNamespaceLevel atNamespaceLevel
  rw [bind_assoc, view_bind, bind_assoc, bind_of_ok (symbol_of_get? h)]
  rfl

theorem doomed_requireNamespaceLevel {index : Nat} (h : s.table.get? s.scope = none) :
    Doomed (requireNamespaceLevel index s) := by
  unfold requireNamespaceLevel atNamespaceLevel
  rw [bind_assoc, view_bind, bind_assoc]
  exact (doomed_symbol h).bind

/-- Namespaces are declared outside of functions, and in the same scope by both walks. -/
theorem Abreast.requireNamespaceLevel {t' : State} {index : Nat} {f : Unit → Walk α}
    [∀ u, Respects .any 0 (f u)] (h : Abreast k o s t)
    (hknown : Known k ((requireNamespaceLevel index >>= f) s) t)
    (hrun : Walk.requireNamespaceLevel index t = .ok () t') :
    t' = t ∧ k.isInner = false ∧ Walk.requireNamespaceLevel index s = .ok () s := by
  cases hx' : t.table.get? t.scope with
  | none =>
    have hdoomed : Doomed (Walk.requireNamespaceLevel index t) := doomed_requireNamespaceLevel hx'
    rw [hrun] at hdoomed
    exact absurd hdoomed (not_doomed_ok _ _)
  | some x' =>
    rw [requireNamespaceLevel_eq hx'] at hrun
    cases hlevel' : t.isNamespaceLevel x' with
    | false =>
      rw [hlevel', Bool.not_false, if_pos rfl] at hrun
      exact absurd hrun (Never.ne_ok _ _ _)
    | true =>
      rw [hlevel'] at hrun
      cases hrun
      unfold State.isNamespaceLevel at hlevel'
      rw [Bool.and_eq_true, Bool.or_eq_true, Bool.not_eq_true', bne_eq_false_iff_eq,
        beq_iff_eq] at hlevel'
      obtain ⟨hfunction, hscope⟩ := hlevel'
      rw [h.alike.function] at hfunction
      have hk : k.isInner = false := by
        cases hinner : k.isInner with
        | false => rfl
        | true => exact absurd hfunction (h.inside hinner)
      have hclose : k.isClose = true := by cases k <;> first | rfl | cases hk
      refine ⟨rfl, hk, ?_⟩
      cases hx : s.table.get? s.scope with
      | none => exact absurd (doomed_requireNamespaceLevel hx).bind hknown.ends
      | some x =>
        -- The scope has kept its kind since the first walk was here.
        have hgrows := hknown.grows hclose
        obtain ⟨x'', hx'', g⟩ := hgrows s.scope x hx
        rw [h.alike.scope hclose] at hx' hscope
        cases hx'.symm.trans hx''
        rw [isSpace_eq_of_tag g.kind.tag] at hscope
        rw [requireNamespaceLevel_eq hx]
        have hlevel : s.isNamespaceLevel x = true := by
          unfold State.isNamespaceLevel
          rw [Bool.and_eq_true, Bool.or_eq_true, Bool.not_eq_true', bne_eq_false_iff_eq, beq_iff_eq]
          exact ⟨hfunction, hscope⟩
        rw [hlevel]
        rfl

section Inner

variable (inner : Walk Unit) [∀ b, Respects .any b inner]
  (hinner : ∀ k b o, InStep k b o inner inner o)
include hinner

/-- A namespace, once it is known that it may stand here. -/
theorem inStep_namespaceBody (index : Nat) : InStep .close b o
    (do let path ← namespacePath
        let id ← namespaceOf path index
        expectMark .openBrace
        inScope id (blockContents inner))
    (do let path ← namespacePath
        let id ← namespaceOf path index
        expectMark .openBrace
        inScope id (blockContents inner)) o := by
  refine .bind_blind fun path => .bind (marches_namespaceOf path index) ?_
  rintro id _ rfl
  exact .bind_blind fun _ => (inStep_blockContents inner hinner).inScope fun _ => rfl

theorem inStep_namespaceDeclaration :
    InStep k b o (namespaceDeclaration inner) (namespaceDeclaration inner) o := by
  unfold namespaceDeclaration
  refine .header fun index => ?_
  constructor
  intro s t hpos habreast hknown
  refine .bind habreast.accounted fun _ t₁ ht₁ => ?_
  obtain ⟨rfl, hk, hs₁⟩ := habreast.requireNamespaceLevel hknown ht₁
  rw [bind_of_ok hs₁] at hknown ⊢
  cases k with
  | close => exact (inStep_namespaceBody inner hinner index).run hpos habreast hknown
  | _ => cases hk

end Inner

/-! ### Functions -/

/-- Items of a list in the order in which they stand. -/
theorem Listed.pairwise {item : Walk α} {P : α → Nat → Prop} {R : α → α → Prop}
    [hitem : ∀ b, Respects .any b item] (h : ∀ s a s₁, item s = .ok a s₁ → P a s₁.pos)
    (hmono : ∀ a m n, m ≤ n → P a m → P a n)
    (hR : ∀ s a a' s₁, P a s.pos → item s = .ok a' s₁ → R a a') {items : List α}
    (hlisted : Listed item s items s₁) : items.Pairwise R := by
  induction hlisted with
  | last => exact List.pairwise_singleton ..
  | more ha hcomma rest ih =>
    refine .cons (rest.all (P := fun a' _ => R _ a') (fun s a' s₁ hpos ha' => ?_)
      (fun _ _ _ _ hr => hr) (le_pos_of_ok (Nat.le_refl _) hcomma)).2 ih
    exact hR s _ a' s₁ (hmono _ _ _ hpos (h _ _ _ ha)) ha'

theorem parameter_index {p : Parameter} (h : parameter s = .ok p s₁) :
    s.pos ≤ p.index ∧ p.index < s₁.pos := by
  unfold parameter at h
  obtain ⟨type, s', htype, h⟩ := bind_eq_ok.1 h
  rw [position_bind] at h
  obtain ⟨name, s'', hname, h⟩ := bind_eq_ok.1 h
  cases h
  exact ⟨le_pos_of_ok (Nat.le_refl _) htype, expectIdentifier_takes hname⟩

/-- The tokens that name parameters. -/
structure Placed (start : Nat) (all : List Parameter) (next : Nat) : Prop where
  first : ∀ p ∈ all, start ≤ p.index
  last : ∀ p ∈ all, p.index < next
  sorted : all.Pairwise fun p q => p.index < q.index

theorem placed_parameters {all : List Parameter} (h : parameters s = .ok all s₁) :
    Placed s.pos all s₁.pos where
  first := parameters_index (Nat.le_refl _) h
  last := parameters_all (b := 0) (P := fun p n => p.index < n)
    (fun s p s₁ _ hp => (parameter_index hp).2)
    (fun _ _ _ hle hlt => Nat.lt_of_lt_of_le hlt hle) (Nat.zero_le _) h
  sorted := by
    unfold parameters at h
    obtain ⟨_, s', hopen, h⟩ := bind_eq_ok.1 h
    obtain ⟨items, s'', hitems, h⟩ := bind_eq_ok.1 h
    obtain ⟨_, s₃, hclose, h⟩ := bind_eq_ok.1 h
    cases h
    unfold separatedUnless at hitems
    obtain ⟨isEmpty, s₂, hcheck, hitems⟩ := bind_eq_ok.1 hitems
    split at hitems
    · cases hitems
      exact .nil
    · exact (listed_of_separated hitems).pairwise (P := fun p n => p.index < n)
        (fun s p s₁ hp => (parameter_index hp).2) (fun _ _ _ hle hlt => Nat.lt_of_lt_of_le hlt hle)
        fun s p q s₁ hlt hq => Nat.lt_of_lt_of_le hlt (parameter_index hq).1

theorem brings_parameter (function : Nat) (name : String) (type : ValueType) (ordinal : Nat) :
    Brings (·.isTarget = false) (addSymbol function name
      (.var { kind := .parameter, type, storage := .stack ordinal })) := by
  refine .of_plain fun s id s₁ hrun => ?_
  obtain ⟨-, rfl, rfl⟩ := addSymbol_eq_ok hrun
  exact ⟨_, by rw [Table.kind?_add, if_pos rfl], rfl⟩

/-- Parameters are recorded for their own tokens. -/
theorem avoids_parameters {index : Nat} {role : Role} (function : Nat) (xs : List (Parameter × Nat))
    (h : ∀ x ∈ xs, x.1.index ≠ index) :
    Avoids index role (xs.forM fun x => declareParameter function x.1 x.2) := by
  induction xs with
  | nil => exact inferInstanceAs (Avoids index role (pure () : Walk Unit))
  | cons x xs ih =>
    have rest := ih fun x hx => h x (List.mem_cons_of_mem _ hx)
    have first : Avoids index role (declareParameter function x.1 x.2) := by
      have avoids := @Avoids.keyed _ index x.1.index role .parameter _
        (brings_parameter function x.1.name.text x.1.type x.2)
        fun heq => absurd heq (h x List.mem_cons_self)
      unfold declareParameter
      infer_instance
    exact inferInstanceAs (Avoids index role (declareParameter function x.1 x.2 >>= fun _ =>
      xs.forM fun x => declareParameter function x.1 x.2))

theorem inStep_parameters (function function' : Nat) (xs : List (Parameter × Nat))
    (hlast : ∀ x ∈ xs, x.1.index < b) (hsorted : xs.Pairwise fun x y => x.1.index < y.1.index) :
    InStep k b o (xs.forM fun x => declareParameter function x.1 x.2)
      (xs.forM fun x => declareParameter function' x.1 x.2) o := by
  induction xs with
  | nil => exact .pure trivial fun _ h => h
  | cons x xs ih =>
    obtain ⟨hfirst, hsorted⟩ := List.pairwise_cons.1 hsorted
    -- Parameters stand at different tokens.
    have avoids := @avoids_parameters x.1.index .parameter function xs fun y hy heq => by
      have := hfirst y hy
      omega
    have any : ∀ function, Respects .any 0 (xs.forM fun x => declareParameter function x.1 x.2) :=
      fun function => .forM fun _ _ => inferInstance
    have rest := ih (fun x hx => hlast x (List.mem_cons_of_mem _ hx)) hsorted
    show InStep k b o
      (declareParameter function x.1 x.2 >>= fun _ => xs.forM fun x =>
        declareParameter function x.1 x.2)
      (declareParameter function' x.1 x.2 >>= fun _ => xs.forM fun x =>
        declareParameter function' x.1 x.2) o
    rw [declareParameter, declareParameter, bind_assoc, bind_assoc]
    simp only [pure_bind]
    exact .keyed_closed (hlast x List.mem_cons_self)
      (brings_parameter function x.1.name.text x.1.type x.2) (fun _ h => h) fun id id' _ => rest

theorem inStep_declareParameters (function function' : Nat) {start next : Nat}
    {all : List Parameter}
    (h : Placed start all next) :
    InStep k next o (declareParameters function all) (declareParameters function' all) o := by
  refine inStep_parameters function function' all.zipIdx (fun x hx => h.last x.1 ?_) ?_
  · exact List.fst_mem_of_mem_zipIdx hx
  · rw [← List.pairwise_map (f := Prod.fst) (R := fun p q : Parameter => p.index < q.index),
      List.zipIdx_map_fst]
    exact h.sorted

theorem avoids_declareParameters {index : Nat} {role : Role} (function : Nat) {all : List Parameter}
    (h : ∀ p ∈ all, p.index ≠ index) :
    Avoids index role (declareParameters function all) :=
  avoids_parameters function all.zipIdx fun x hx => h x.1 (List.fst_mem_of_mem_zipIdx hx)

instance (returnType : ValueType) (name : String) (index : Nat) (all : List Parameter) :
    Checks (checkFunction m returnType name index all) := by
  unfold checkFunction
  have faults : ∀ inside inState,
      Checks (match functionFault? m returnType name all inside inState with
      | some (code, message) => reject index code message
      | none => do
        let scope ← view (·.scope)
        let types := all.map (·.type)
        let same ← findChild scope name fun x => x.kind.function?.any (·.parameterTypes == types)
        if same.isSome then
          reject index .duplicateSymbol
            s!"function '{name}' with these parameters is already declared") := by
    intro inside inState
    split <;> infer_instance
  infer_instance

/-- Functions are not declared inside of functions. -/
theorem refused_checkFunction {returnType : ValueType} {name : String} {index : Nat}
    {all : List Parameter} {f : Unit → Walk α} (hpass : s.pass = .declare)
    (hfunction : s.function ≠ globalScope) :
    Doomed ((declaring (checkFunction m returnType name index all) >>= f) s) ∨
      (final ((declaring (checkFunction m returnType name index all) >>= f) s)).log.hasErrors =
        true := by
  have checks : Checks (checkFunction m returnType name index all) := inferInstance
  have hdeclare := declaring_of_declare (x := checkFunction m returnType name index all) hpass
  rcases checks.run s hpass with ⟨_, hrun⟩ | hdoomed | ⟨e, s', hrun, hlog⟩
  · exact absurd (checkFunction_eq_ok hrun) hfunction
  · rw [← hdeclare] at hdoomed
    exact .inl hdoomed.bind
  · rw [bind_of_error (hdeclare.trans hrun)]
    exact .inr hlog

theorem brings_function (scope : Nat) (name : String) (all : List Parameter)
    (returnType : ValueType)
    (flags : FunctionFlags) (access : Access) : Brings (·.isTarget = false) (do
      let id ← addSymbol scope name (.function
        { parameterCount := all.length, parameterTypes := all.map (·.type), returnType, flags,
          access })
      attachMetadata id
      return id) :=
  brings_annotated rfl

instance : Still p (finishFrame id) := by
  refine .of_cases fun s => ?_
  rcases finishFrame_cases id s with hrun | hrun
  · exact .inl ⟨_, _, hrun, rfl, rfl⟩
  · exact .inr hrun

instance : Still p (finishFunction id) := by
  have each : ∀ x : Nat × String, Still p (reportAt x.1 .unusedSymbol .warning
      s!"'{x.2}' is never read") := inferInstance
  unfold finishFunction checkUnused
  infer_instance

instance (function : Nat) (all : List Parameter) : Forward b (declareParameters function all) := by
  have each : ∀ x : Parameter × Nat, Forward b (declareParameter function x.1 x.2) := by
    intro x
    unfold declareParameter
    infer_instance
  unfold declareParameters
  induction all.zipIdx with
  | nil => exact inferInstanceAs (Forward b (pure () : Walk Unit))
  | cons x xs ih =>
    exact inferInstanceAs (Forward b (declareParameter function x.1 x.2 >>= fun _ =>
      xs.forM fun x => declareParameter function x.1 x.2))

theorem inStep_withoutBody (name : String) :
    InStep k b o (withoutBody name) (withoutBody name) o := by
  unfold withoutBody
  exact .bind_blind fun isOpen => .ite (fun _ => .never) fun _ => .of_agrees .same

section Inner

variable (inner : Walk Unit) [∀ b, Respects .any b inner]
  (hinner : ∀ k b o, InStep k b o inner inner o)
include hinner

theorem inStep_functionContents (id : Nat) :
    InStep k b o (functionContents inner id) (functionContents inner id) o := by
  unfold functionContents
  refine .bind (inStep_blockContents inner hinner) fun _ _ _ => .bind_still fun _ _ => ?_
  exact .of_agrees .still

/-- Inside of a function both walks are in the same. -/
theorem inStep_inFunctionOf (id : Nat) : InStep .close b o
    (inFunctionOf id (functionContents inner id))
    (inFunctionOf id (functionContents inner id)) o := by
  have contents : InStep .close b o (inScope id (inBlock (functionContents inner id)))
      (inScope id (inBlock (functionContents inner id))) o :=
    (inStep_functionContents inner hinner id).inBlock.inScope fun _ => rfl
  exact contents.enclosed (.inFunctionOf id _) (.inFunctionOf id _)
    (fun _ _ h => ⟨rfl, h.regions, h.shapes, h.scope⟩) fun _ => nofun

theorem inStep_functionBody (id : Nat) :
    InStep .close b o (functionBody inner id) (functionBody inner id) o := by
  unfold functionBody
  exact .bind_blind fun _ => inStep_inFunctionOf inner hinner id

variable [∀ b, Respects .loud b inner]

theorem inStep_functionDeclaration {index : Nat} (hindex : index < b) (m : Modifiers)
    (returnType : ValueType) (name : Token) :
    InStep k b o (functionDeclaration inner m returnType name index)
      (functionDeclaration inner m returnType name index) o := by
  unfold functionDeclaration
  refine .bind_facts (P := Placed) placed_parameters fun start all next hstart hnext hplaced => ?_
  -- Parameters stand behind the name, so they have other tokens.
  have avoids : ∀ function, Avoids index (functionRole m) (declareParameters function all) :=
    fun function =>
    avoids_declareParameters function fun p hp => by
      have := hplaced.first p hp
      omega
  have any : ∀ function, Respects .any 0 (declareParameters function all) := fun function =>
    .declareParameters (fun _ _ => Nat.zero_le _) function
  unfold declareFunction
  rw [bind_assoc]
  cases hk : k.isInner with
  -- The first walk refuses a function inside of another.
  | true => exact .refused_inside hk fun s hpass hfunction => refused_checkFunction hpass hfunction
  | false =>
    cases k with
    | close =>
      refine .declaring ?_
      rw [bind_assoc]
      refine .bind_view (R := Eq) (fun s t habreast => (habreast.alike.scope rfl).symm) ?_
      rintro scope _ rfl
      refine .keyed_closed (Nat.lt_of_lt_of_le hindex (Nat.le_trans hstart hnext))
        (brings_function scope name.text all returnType m.flags (m.access.getD .everyone))
        (fun _ h => h) fun id id' hid => ?_
      cases hid rfl
      refine .bind (inStep_declareParameters id id hplaced) fun _ _ _ => ?_
      exact .ite (fun _ => inStep_withoutBody name.text) fun _ =>
        inStep_functionBody inner hinner id
    | _ => cases hk

theorem inStep_declaration : InStep k b o (declaration inner) (declaration inner) o := by
  have rest : ∀ b m, Respects .any b (do
      let type ← typeSpecifier
      let index ← position
      let name ← expectIdentifier
      if ← check .openParen then functionDeclaration inner m type name index
      else variableDeclarations m type name index) := inferInstance
  unfold declaration
  refine .bind marches_modifiers ?_
  rintro m _ rfl
  refine .bind_blind fun type => .position expectIdentifier_takes fun index name => ?_
  refine .bind_blind fun isFunction => .ite (fun _ => ?_) fun _ => ?_
  · exact inStep_functionDeclaration inner hinner (Nat.lt_succ_self _) m type name
  · exact inStep_variableDeclarations (Nat.lt_succ_self _) m type name

end Inner

end StateScript.Walk
