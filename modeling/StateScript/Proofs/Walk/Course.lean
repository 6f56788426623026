import StateScript.Proofs.Walk.DeclarationLockstep
import StateScript.Proofs.Walk.ExpressionSteps

/-! # The course of a walk

  What statements do to the state, in the manner of the steps of expressions. A `Move` is
  one thing that a statement does: a step of an expression, entering or leaving a scope, a
  loop or a region, making a symbol or finding it again, a jump, binding a target. A
  `Course` is a sequence of moves in which the bodies of functions are brackets: the first
  walk lays out the frame of a function where its body ends, and the second puts a return
  there. Whatever all moves and both brackets keep, all scripts keep.

  What is known of the symbols that moves refer to is stated about a `Prospect`: the table
  at the end of both walks and the records that the second walk finds again. A walk is
  `Charted` if its runs in a function are courses, and it `Gives` what is known of its
  outcome there. Only runs without an error count, so that a body which the second walk
  does not find need not be followed.
-/

namespace StateScript

variable {id : Nat} {k : SymbolKind} {t t' : Table}

/-! ### Records by role -/

/-- Roles of variables. -/
def Role.isVariable : Role → Bool
  | .variable | .parameter | .member | .counter | .limit | .value => true
  | _ => false

/-- Roles of targets. -/
def Role.isTarget : Role → Bool
  | .label | .otherwise | .stop | .start | .resume | .test | .body => true
  | _ => false

/-- Roles of the locals that the compiler makes for itself. -/
def Role.isInternal : Role → Bool
  | .counter | .limit | .value => true
  | _ => false

/-- A variable that is local to a function. -/
def Table.IsLocal (t : Table) (id : Nat) : Prop := ∃ v, t.var? id = some v ∧ v.kind = .local

theorem Table.Grows.isLocal (h : t.Grows t') (hid : t.IsLocal id) : t'.IsLocal id := by
  obtain ⟨v, hv, hkind⟩ := hid
  obtain ⟨k', hk', g⟩ := h.kind? (var?_eq_some.1 hv)
  obtain ⟨v', rfl, hsame, -⟩ := g.var v rfl
  exact ⟨v', var?_eq_some.2 hk', hsame.trans hkind⟩

theorem Table.IsLocal.isVar (h : t.IsLocal id) : t.IsVar id := by
  obtain ⟨v, hv, -⟩ := h
  exact ⟨v, hv⟩

theorem SymbolKind.tag_eq_space_iff : k.tag = 4 ↔ k = .space := by
  cases k <;> simp [tag]

theorem SymbolKind.tag_eq_enumeration_iff : k.tag = 3 ↔ k = .enumeration := by
  cases k <;> simp [tag]

/-- Symbols that are nothing but their sort stay what they are. -/
theorem SymbolKind.Grows.eq_space_iff {k' : SymbolKind} (h : k.Grows k') :
    k' = .space ↔ k = .space := by
  rw [← tag_eq_space_iff, ← tag_eq_space_iff, h.tag]

theorem SymbolKind.Grows.eq_enumeration_iff {k' : SymbolKind} (h : k.Grows k') :
    k' = .enumeration ↔ k = .enumeration := by
  rw [← tag_eq_enumeration_iff, ← tag_eq_enumeration_iff, h.tag]

/-- Where states and namespaces may be declared. -/
def Table.IsLevel (t : Table) (id : Nat) : Prop := id = Walk.globalScope ∨ t.kind? id = some .space

def Table.IsEnumeration (t : Table) (id : Nat) : Prop := t.kind? id = some .enumeration

theorem Table.Grows.isLevel (h : t.Grows t') (hid : t.IsLevel id) : t'.IsLevel id := by
  rcases hid with hglobal | hspace
  · exact .inl hglobal
  · obtain ⟨k', hk', g⟩ := h.kind? hspace
    rw [g.eq_space_iff.2 rfl] at hk'
    exact .inr hk'

theorem Table.Grows.isLevel_of_lt (h : t.Grows t') (hid : t'.IsLevel id) (hlt : id < t.size) :
    t.IsLevel id := by
  rcases hid with hglobal | hspace
  · exact .inl hglobal
  · obtain ⟨x, hx⟩ := exists_get? hlt
    obtain ⟨k', hk', g⟩ := h.kind? (kind?_eq_some.2 ⟨x, hx, rfl⟩)
    cases hspace.symm.trans hk'
    exact .inr (kind?_eq_some.2 ⟨x, hx, g.eq_space_iff.1 rfl⟩)

theorem Table.Grows.isEnumeration (h : t.Grows t') (hid : t.IsEnumeration id) :
    t'.IsEnumeration id := by
  obtain ⟨k', hk', g⟩ := h.kind? hid
  rwa [g.eq_enumeration_iff.2 rfl] at hk'

theorem Table.Grows.isEnumeration_of_lt (h : t.Grows t') (hid : t'.IsEnumeration id)
    (hlt : id < t.size) : t.IsEnumeration id := by
  obtain ⟨x, hx⟩ := exists_get? hlt
  obtain ⟨k', hk', g⟩ := h.kind? (kind?_eq_some.2 ⟨x, hx, rfl⟩)
  cases hid.symm.trans hk'
  exact kind?_eq_some.2 ⟨x, hx, g.eq_enumeration_iff.1 rfl⟩

/-- A function with a body. -/
def Table.IsDefined (t : Table) (id : Nat) : Prop :=
  ∃ f, t.function? id = some f ∧ Walk.hasBody f = true

theorem Table.Grows.isDefined (h : t.Grows t') (hid : t.IsDefined id) : t'.IsDefined id := by
  obtain ⟨f, hf, hbody⟩ := hid
  obtain ⟨f', hf', hflags⟩ := h.function? hf
  refine ⟨f', hf', ?_⟩
  unfold Walk.hasBody
  rw [hflags]
  exact hbody

/-- What has a body in the end has had one from the start. -/
theorem Table.Grows.isDefined_of_lt (h : t.Grows t') (hid : t'.IsDefined id) (hlt : id < t.size) :
    t.IsDefined id := by
  obtain ⟨f', hf', hbody⟩ := hid
  obtain ⟨x, hx⟩ := exists_get? hlt
  obtain ⟨k', hk', g⟩ := h.kind? (kind?_eq_some.2 ⟨x, hx, rfl⟩)
  cases (function?_eq_some.1 hf').symm.trans hk'
  -- What is a function in the end has always been one.
  have htag := g.tag
  cases hkind : x.kind with
  | function f =>
    obtain ⟨f'', hf'', -, hflags, -⟩ := g.function f hkind
    cases hf''
    refine ⟨f, function?_eq_some.2 (kind?_eq_some.2 ⟨x, hx, hkind⟩), ?_⟩
    unfold Walk.hasBody at hbody ⊢
    rw [← hflags]
    exact hbody
  | _ =>
    rw [hkind] at htag
    cases htag

/-- A target of a function. -/
structure Table.IsTargetOf (t : Table) (id f : Nat) : Prop where
  scope : t.scope? id = some f
  kind : ∃ bound, t.kind? id = some (.target bound)

theorem Table.Grows.isTargetOf {f : Nat} (h : t.Grows t') (hid : t.IsTargetOf id f) :
    t'.IsTargetOf id f := by
  obtain ⟨bound, hkind⟩ := hid.kind
  obtain ⟨x, hx, -⟩ := kind?_eq_some.1 hkind
  obtain ⟨k', hk', g⟩ := h.kind? hkind
  refine ⟨(h.scope? (get?_lt hx)).trans hid.scope, ?_⟩
  have htag := g.tag
  cases k' with
  | target bound' => exact ⟨bound', hk'⟩
  | _ => cases htag

/-- The symbol of a record is what its role says. -/
structure Declared.Sound (T : Table) (d : Declared) : Prop where
  owned : T.scope? d.symbol ≠ none
  isVar : d.role.isVariable = true → T.IsVar d.symbol
  isLocal : d.role.isInternal = true → T.IsLocal d.symbol
  enumeration : d.role = .enumeration → T.IsEnumeration d.symbol
  target : d.role.isTarget = true → T.IsTargetOf d.symbol d.function
  function : d.role = .function → d.function = Walk.globalScope ∧ T.IsDefined d.symbol

namespace Walk

variable {α β : Type} {g : Grade} {s s' : State} {T : Table} {x : Walk α} {q : α → Prop}
  {turn : α → Walk (Turn α β)} {k : α → Walk β}

/-! ### Changes of the state -/

/-- A new symbol, remembered for a token in a role. -/
def State.declare (s : State) (token : Nat) (role : Role) (owner : Nat) (name : String)
    (kind : SymbolKind) : State :=
  { s with
    table := s.table.add (some owner) name kind
    declared := ⟨token, role, s.table.size, s.function, s.regions⟩ :: s.declared }

/-- A symbol that was found again for a token in a role. -/
def State.retrieve (s : State) (token : Nat) (role : Role) (id : Nat) : State :=
  { s with recalled := ⟨token, role, id, s.function, s.regions⟩ :: s.recalled }

/-- A symbol gets the keys and values that wait for it. -/
def State.annotate (s : State) (owner : Nat) : State :=
  { s with
    table := s.metadata.foldl (fun t entry => t.add (some owner) entry.1 (.metadata entry.2))
      s.table
    metadata := [] }

/-- Parameters are made with their ordinals in place of offsets. -/
def Parameter.variable (p : Parameter) (ordinal : Nat) : Variable :=
  { kind := .parameter, type := p.type, storage := .stack ordinal }

/-- A function gets its parameters. -/
def State.parametrise (s : State) (function : Nat) (all : List (Parameter × Nat)) : State :=
  all.foldl (fun s p =>
    s.declare p.1.index .parameter function p.1.name.text (.var (p.1.variable p.2))) s

/-- A function as it is written, apart from its body. -/
structure Head where
  modifiers : Modifiers
  returnType : ValueType
  name : String
  /-- The token of the name. -/
  token : Nat
  parameters : List Parameter

def Head.function (h : Head) : Function :=
  { parameterCount := h.parameters.length
    parameterTypes := h.parameters.map (·.type)
    returnType := h.returnType
    flags := h.modifiers.flags
    access := h.modifiers.access.getD .everyone }

/-- A new function with its parameters. -/
def State.introduce (s : State) (h : Head) : State :=
  ((s.declare h.token (functionRole h.modifiers) s.scope h.name (.function h.function)).annotate
    s.table.size).parametrise s.table.size h.parameters.zipIdx

/-- Inside of a function. -/
def State.inside (s : State) (function : Nat) : State :=
  { s with function, scope := function, localCount := 0 }

/-! ### Moves -/

/-- A function that the first walk makes. -/
structure State.Admits (s : State) (h : Head) : Prop where
  checked : checkFunction h.modifiers h.returnType h.name h.token h.parameters s = .ok () s
  scope : s.scope < s.table.size
  outer : s.scope ≠ memberScope
  method : h.modifiers.flags.method = false

/-- Behind a name at a token stand parameters and the start of a body. -/
def Opens (tokens : Array Token) (token : Nat) : Prop :=
  ∃ (s s' : State) (all : List Parameter), s.tokens = tokens ∧ s.pos = token + 1 ∧
    parameters s = .ok all s' ∧ tokens[s'.pos]?.map Token.kind = some .openBrace

/-- A symbol that the first walk makes for a role, and the state in which its place, if it
    takes one, is taken. -/
inductive Declares (s : State) : Role → Nat → String → SymbolKind → State → Prop
  | memory {role : Role} {owner : Nat} {name : String} {v : Variable}
      (hrole : role = .variable ∧
          (s.function = globalScope → s.table.find? owner name isExclusive = none) ∧
          (s.function ≠ globalScope → owner = s.function) ∨
        role = .member ∧ s.table.IsEnumeration owner ∧ s.table.find? owner name isVariable = none)
      (hkind : v.kind.usesMemory = true) (hstorage : v.storage = .memory s.memorySize) :
      Declares s role owner name (.var v) { s with memorySize := s.memorySize + 1 }
  | inFrame {role : Role} {name : String} {v : Variable} (hinside : s.function ≠ globalScope)
      (hrole : role = .variable ∨ role = .counter ∨ role = .limit ∨ role = .value)
      (hkind : v.kind = .local) (hstorage : v.storage = .stack s.localCount) :
      Declares s role s.function name (.var v) { s with localCount := s.localCount + 1 }
  | target {role : Role} (name : String) (hinside : s.function ≠ globalScope)
      (hrole : role.isTarget = true) : Declares s role s.function name (.target none) s
  | state {owner : Nat} {name : String} {engine editor : Bool}
      (hlevel : s.table.IsLevel owner) (new : s.table.find? owner name (·.kind.isState) = none)
      (hengine : engine = true → s.engineState = none)
      (heditor : editor = true → s.editorState = none) :
      Declares s .state owner name (.state engine editor)
        { s with
          engineState := if engine then some s.table.size else s.engineState
          editorState := if editor then some s.table.size else s.editorState }
  | enumeration {owner : Nat} {name : String}
    (hlevel : s.table.IsLevel owner ∨ s.table.IsState owner)
      (new : s.table.find? owner name isExclusive = none) :
      Declares s .enumeration owner name .enumeration s

/-- One move of a statement. -/
inductive Move (T : Table) (s : State) : State → Prop
  | step {s' : State} (h : Step T s s') : Move T s s'
  | enter (scope : Nat) (loops : List LoopFrame) (regions : Regions) :
      Move T s { s with scope, loops, regions }
  | annotate {owner : Nat} (howner : owner < s.table.size) : Move T s (s.annotate owner)
  | space {owner : Nat} {name : String} (howner : owner < s.table.size)
      (houter : owner ≠ memberScope)
      (hlevel : s.table.IsLevel owner)
      (new : s.table.find? owner name (fun x => isVariable x || x.kind.isContainer) = none) :
      Move T s { s with table := s.table.add (some owner) name .space }
  | declare (token : Nat) {role : Role} {owner : Nat} {name : String} {kind : SymbolKind}
      {s₁ : State} (hpass : s.pass = .declare) (howner : owner < s.table.size)
      (houter : owner ≠ memberScope) (new : Declares s role owner name kind s₁) :
      Move T s (s₁.declare token role owner name kind)
  /-- A function that has no body, or none where it has to be. -/
  | introduce {h : Head} (hpass : s.pass = .declare) (admits : s.Admits h)
      (hbody : h.modifiers.flags.imported = true ∨ ¬ Opens s.tokens h.token) :
      Move T s (s.introduce h)
  | literal (id : Nat) (t : Token) (hpass : s.pass = .declare) :
      Move T s
        { s with table := s.table.modifyKind id (·.mapVariable ({ · with literal := some t })) }
  | retrieve {token : Nat} {role : Role} {id : Nat} (hpass : s.pass = .emit)
      (hrole : role ≠ .function) :
      Move T s (s.retrieve token role id)
  /-- The second walk knows the type of the value that a switch tests. -/
  | retype (id : Nat) (type : ValueType) (hpass : s.pass = .emit) (hlocal : T.IsLocal id) :
      Move T s { s with table := s.table.modifyKind id (·.mapVariable ({ · with type })) }
  | jump {op : Opcode} {id : Nat} (hpass : s.pass = .emit) (hinside : s.function ≠ globalScope)
      (haims : T.IsTargetOf id s.function) : Move T s (s.emit op [.target id] none)
  | bind {id : Nat} (hpass : s.pass = .emit) (hinside : s.function ≠ globalScope)
      (haims : T.IsTargetOf id s.function) :
      Move T s (s.bind id)

/-- What comes of any number of statements. -/
inductive Course (T : Table) : State → State → Prop
  | refl (s : State) : Course T s s
  | move {s s' : State} (h : Move T s s') : Course T s s'
  | trans {s s₁ s₂ : State} (h : Course T s s₁) (h₁ : Course T s₁ s₂) : Course T s s₂
  /-- An initial value that is computed before any function runs. -/
  | outside {s s₁ : State} (h : Steps T { s with function := globalScope } s₁) :
      Course T s { s₁ with function := s.function }
  /-- A function with its body in the first walk. -/
  | framed {s s₁ : State} {h : Head} (hpass : s.pass = .declare) (admits : s.Admits h)
      (hbody : h.modifiers.flags.imported = false)
      (body : Course T ((s.introduce h).inside s.table.size) s₁) :
      Course T s { s₁ with
        table := layFrame s₁.table s.table.size s₁.localCount
        function := s.function
        scope := s.scope }
  /-- A function with its parameters and its body in the second walk. -/
  | filled {s s₀ s₁ : State} {token id : Nat} (hpass : s.pass = .emit)
      (hfunction : s.function = globalScope) (hid : T.IsDefined id) (opens : Opens s.tokens token)
      (parameters : Course T (s.retrieve token .function id) s₀)
        (body : Course T (s₀.inside id) s₁) :
      Course T s { s₁.emit .ret [] none with function := s.function, scope := s.scope }

theorem Course.steps (h : Steps T s s') : Course T s s' := by
  induction h with
  | refl => exact .refl _
  | tail _ hstep ih => exact .trans ih (.move (.step hstep))

theorem Course.aside (s : State) (pos : Nat) (log : Log) (rejected : List Nat)
    (blocks : List (List Nat)) (metadata : List (String × String)) (internalVariables : Nat) :
    Course T s { s with pos, log, rejected, blocks, metadata, internalVariables } :=
  .move (.step (.aside ..))

/-! ### Walks that take a course -/

/-- What both walks come to in the end: the table, and the records that are found again. -/
structure Prospect where
  table : Table
  member : table.kind? memberScope = some .space
  root : table.scope? memberScope = none
  recalled : List Declared
  sound : ∀ r ∈ recalled, r.Sound table

theorem Prospect.ne_member {o : Prospect} {id : Nat} (h : o.table.scope? id ≠ none) :
    id ≠ memberScope := by
  rintro rfl
  exact h o.root

variable {o : Prospect} {f : Nat}

/-- A state on the way there. -/
structure Heads (o : Prospect) (s : State) : Prop where
  table : s.table.Grows o.table
  recalled : ∀ r ∈ s.recalled, r ∈ o.recalled
  quiet : s.log.hasErrors = false

/-- A state inside the function `f`. The loops around are loops of that function, and there
    are none outside of functions. Nothing is declared by name in the member scope. -/
structure Inside (T : Table) (f : Nat) (s : State) : Prop where
  function : s.function = f
  outer : f ≠ memberScope
  scope : s.scope ≠ memberScope
  size : memberScope < s.table.size
  faithful : s.Faithful
  wellFormed : s.table.WellFormed
  counts : Counts T s
  breaks : ∀ frame ∈ s.loops, T.IsTargetOf frame.breakTarget f
  continues : ∀ frame ∈ s.loops, ∀ id, frame.continueTarget = some id → T.IsTargetOf id f
  outside : f = globalScope → s.loops = []

/-- If the walk goes on after this run, and heads for the end without an error, then the run
    was a course from `s`. -/
def Tracks (o : Prospect) (s : State) (r : EStateM.Result Stop State α) : Prop :=
  Continues r → Heads o (final r) → Course o.table s (final r)

/-- The runs of the walk inside the function `f` are courses. -/
class Charted (o : Prospect) (f : Nat) (x : Walk α) : Prop where
  respects : Respects .any 0 x
  run : ∀ s, Inside o.table f s → Tracks o s (x s)

/-- What is known of the outcome of a walk inside the function `f`. -/
def Gives (o : Prospect) (f : Nat) (x : Walk α) (q : α → Prop) : Prop :=
  ∀ s a s', Inside o.table f s → x s = .ok a s' → Heads o s' → q a

theorem Heads.before {b : Nat} {e : Option Stop} (h : Heads o s') (hkeeps : Keeps g b e s s') :
    Heads o s where
  table := hkeeps.table.trans h.table
  recalled r hr := by
    obtain ⟨new, hnew, -⟩ := hkeeps.recalls
    apply h.recalled
    rw [hnew]
    exact List.mem_append_right _ hr
  quiet := by
    cases herrors : s.log.hasErrors with
    | false => rfl
    | true => exact (h.quiet.symm.trans (hasErrors_mono hkeeps.log herrors)).symm

theorem Respects.heads (hx : Respects g 0 x) (h : Heads o (final (x s))) : Heads o s :=
  h.before (hx.run s (Nat.zero_le _))

theorem Inside.keeps {b : Nat} {e : Option Stop} (h : Inside T f s) (hkeeps : Keeps g b e s s') :
    Inside T f s' where
  function := hkeeps.function.trans h.function
  outer := h.outer
  scope := hkeeps.scope ▸ h.scope
  size := Nat.lt_of_lt_of_le h.size hkeeps.table.size_le
  faithful := hkeeps.faithful h.faithful
  wellFormed := hkeeps.wellFormed h.wellFormed
  counts := h.counts.keeps hkeeps
  breaks := hkeeps.loops ▸ h.breaks
  continues := hkeeps.loops ▸ h.continues
  outside hf := hkeeps.loops.trans (h.outside hf)

/-- Nothing is abandoned in the second walk without an error. -/
theorem Inside.ending_ne [hx : Respects .loud 0 x] (h : Inside T f s) (hpass : s.pass = .emit)
    (hheads : Heads o (final (x s))) : ending (x s) ≠ some .abandoned := by
  intro hend
  have hkeeps := hx.run s (Nat.zero_le _)
  exact absurd (hkeeps.loud (Nat.le_refl _) hend hpass h.faithful) (by simp [hheads.quiet])

section Tracks

variable {r : EStateM.Result Stop State α}

theorem Tracks.of_course (h : Course o.table s (final r)) : Tracks o s r := fun _ _ => h

theorem Tracks.of_doomed (h : Doomed r) : Tracks o s r := by
  rintro (hend | hend) <;> rcases h with h | h <;> cases hend.symm.trans h

theorem Tracks.of_errors (h : (final r).log.hasErrors = true) : Tracks o s r :=
  fun _ hheads => absurd h (by simp [hheads.quiet])

theorem Tracks.after (h : Course o.table s s') (hr : Tracks o s' r) : Tracks o s r :=
  fun hcontinues hheads => .trans h (hr hcontinues hheads)

theorem Tracks.of_paced [hx : Paced o.table x] (hcounts : Counts o.table s) : Tracks o s (x s) :=
  fun hcontinues hheads => .steps (hx.run s hcounts hcontinues hheads.table)

/-- A run that heads for the end has done so from its start. -/
theorem Tracks.of_heads [hx : Respects .any 0 x] (h : Heads o s' → Tracks o s (x s')) :
    Tracks o s (x s') :=
  fun hcontinues hheads => h (hx.heads hheads) hcontinues hheads

end Tracks

/-- One walk after the other, from a given state. -/
theorem Tracks.bind (hr : ∀ a, Respects .any 0 (k a)) (hx : Tracks o s (x s))
    (hk : ∀ a s₁, x s = .ok a s₁ → Tracks o s₁ (k a s₁)) : Tracks o s ((x >>= k) s) := by
  cases hrun : x s with
  | ok a s₁ =>
    rw [hrun] at hx
    rw [bind_of_ok hrun]
    intro hcontinues hheads
    exact .trans (hx (continues_ok a s₁) ((hr a).heads hheads)) (hk a s₁ hrun hcontinues hheads)
  | error e s₁ =>
    rw [hrun] at hx
    rw [bind_of_error hrun]
    exact hx

theorem Charted.tracks_bind (hx : Charted o f x) (hr : ∀ a, Respects .any 0 (k a))
    (hinside : Inside o.table f s)
    (hk : ∀ a s₁, x s = .ok a s₁ → Inside o.table f s₁ → Tracks o s₁ (k a s₁)) :
    Tracks o s ((x >>= k) s) :=
  .bind hr (hx.run s hinside) fun a s₁ hrun =>
    hk a s₁ hrun (hinside.keeps (hx.respects.ok (Nat.zero_le _) hrun))

/-- A walk whose outcome the rest relies on. -/
theorem Charted.bind_gives (hx : Charted o f x)
    (hq : Gives o f x q) (hk : ∀ a, q a → Charted o f (k a))
    (hr : ∀ a, Respects .any 0 (k a) := by
      intro a
      repeat' first
        | infer_instance
        | split
        | refine Respects.seq fun _ => ?_) : Charted o f (x >>= k) where
  respects := .bind hx.respects hr
  run s hinside := by
    refine hx.tracks_bind hr hinside fun a s₁ hrun hinside₁ hcontinues hheads => ?_
    have hqa := hq s a s₁ hinside hrun ((hr a).heads hheads)
    exact (hk a hqa).run s₁ hinside₁ hcontinues hheads

theorem Gives.bind {p : α → Prop} {q : β → Prop}
    (hx : Gives o f x p) (hk : ∀ a, p a → Gives o f (k a) q)
    (hx' : Respects .any 0 x := by infer_instance)
    (hr : ∀ a, Respects .any 0 (k a) := by
      intro a
      repeat' first
        | infer_instance
        | split
        | refine Respects.seq fun _ => ?_) : Gives o f (x >>= k) q := by
  intro s b s' hinside hrun hheads
  obtain ⟨a, s₁, hfirst, hrest⟩ := bind_eq_ok.1 hrun
  have hheads₁ : Heads o s₁ := by
    apply (hr a).heads
    rw [hrest]
    exact hheads
  have hinside₁ := hinside.keeps (hx'.ok (Nat.zero_le _) hfirst)
  exact hk a (hx s a s₁ hinside hfirst hheads₁) s₁ b s' hinside₁ hrest hheads

theorem Gives.pure {a : α} (h : q a) : Gives o f (pure a : Walk α) q := by
  intro s b s' _ hrun _
  cases hrun
  exact h

theorem Gives.trivial (x : Walk α) : Gives o f x fun _ => True := fun _ _ _ _ _ _ => True.intro

theorem Gives.of_yields (h : Yields o.table x q) : Gives o f x q :=
  fun s a s' _ hrun hheads => h s a s' hrun hheads.table

theorem Charted.bind (hx : Charted o f x) (hk : ∀ a, Charted o f (k a)) : Charted o f (x >>= k) :=
  hx.bind_gives (.trivial x) (fun a _ => hk a) fun a => (hk a).respects

instance (priority := low) charted_of_paced (x : Walk α) [hx : Paced o.table x] :
    Charted o f x where
  respects := hx.respects
  run _ hinside := .of_paced hinside.counts

theorem Charted.seq [hx : Charted o f x] (hk : ∀ a, Charted o f (k a)) : Charted o f (x >>= k) :=
  hx.bind hk

instance [hx : Charted o f x] [hk : ∀ a, Charted o f (k a)] : Charted o f (x >>= k) :=
  hx.bind hk

instance (c : Prop) [Decidable c] (y : Walk α) [hx : Charted o f x] [hy : Charted o f y] :
    Charted o f (if c then x else y) := by
  split
  · exact hx
  · exact hy

theorem Charted.loop (h : ∀ a, Charted o f (turn a)) (a : α) : Charted o f (loop a turn) :=
  loop_induction (P := Charted o f) (fun _ => .seq) (@charted_of_paced _ o f _ .broken)
    (fun _ => inferInstance) (fun a _ => (h a).bind) a

instance (a : α) [h : ∀ a, Charted o f (turn a)] : Charted o f (loop a turn) :=
  .loop h a

/-! ### Where a statement may stand -/

theorem requireFunction_eq_ok {what : String} {u : Unit} (h : requireFunction what s = .ok u s') :
    s.function ≠ globalScope := by
  intro houtside
  unfold requireFunction inFunction at h
  rw [view_bind, houtside] at h
  change (if true = true then errorHere .invalidScope _ else pure ()) s = _ at h
  rw [if_pos rfl] at h
  exact absurd h (Never.ne_ok _ _ _)

/-- What follows a demand for a function is inside of one. -/
theorem Charted.required {what : String} {k : Unit → Walk β}
    (hk : f ≠ globalScope → Charted o f (k ()))
    (hr : ∀ a, Respects .any 0 (k a) := by
      intro a
      repeat' first
        | infer_instance
        | split
        | refine Respects.seq fun _ => ?_) :
    Charted o f (requireFunction what >>= k) :=
  .bind_gives inferInstance (q := fun _ => f ≠ globalScope)
    (fun _ _ _ hinside hrun _ => hinside.function ▸ requireFunction_eq_ok hrun)
      (fun _ hf => hk hf) hr

/-- Whether the walk is inside of a function is settled. -/
theorem Charted.inFunction {k : Bool → Walk β} (hk : Charted o f (k (f != globalScope)))
    (hr : ∀ a, Respects .any 0 (k a) := by
      intro a
      repeat' first
        | infer_instance
        | split
        | refine Respects.seq fun _ => ?_) :
    Charted o f (inFunction >>= k) :=
  .bind_gives inferInstance (q := fun isInner => isInner = (f != globalScope))
    (fun _ _ _ hinside hrun _ => by
      cases hrun
      exact congrArg (· != globalScope) hinside.function)
    (fun _ hinner => hinner ▸ hk) hr

/-- What is seen of the state from inside the function. -/
theorem Charted.view {g : State → α} [Respects .any 0 (Walk.view g)]
    (hk : ∀ s, Inside o.table f s → Charted o f (k (g s)))
    (hr : ∀ a, Respects .any 0 (k a) := by
      intro a
      repeat' first
        | infer_instance
        | split
        | refine Respects.seq fun _ => ?_) :
    Charted o f (view g >>= k) where
  respects := .bind inferInstance hr
  run s hinside := by
    rw [view_bind]
    exact (hk s hinside).run s hinside

/-! ### Entering and leaving -/

/-- A walk between two moves that undo each other. -/
theorem Charted.enclosed {w x : Walk Unit} (e : Enclosure w x) (hx : Charted o f x)
    [Respects .any 0 w] (henter : ∀ s, Move o.table s (e.enter s))
    (hleave : ∀ s s', Move o.table s' (e.leave s s'))
    (hinside : ∀ s, Inside o.table f s → Inside o.table f (e.enter s)) : Charted o f w where
  respects := inferInstance
  run s hs hcontinues hfinal := by
    unfold Continues at hcontinues
    rw [e.ending_eq] at hcontinues
    rw [e.final_eq] at hfinal ⊢
    have left := e.left s (final (x (e.enter s)))
    have hrun := hx.run (e.enter s) (hinside s hs) hcontinues
      ⟨left.table ▸ hfinal.table, left.recalled ▸ hfinal.recalled, left.log ▸ hfinal.quiet⟩
    exact .trans (.move (henter s)) (.trans hrun (.move (hleave s _)))

section Enclosing

variable (x : Walk Unit) [hx : Charted o f x]

theorem charted_inScope {id : Nat} (hid : id ≠ memberScope) : Charted o f (inScope id x) := by
  have := hx.respects
  exact .enclosed (.inScope id x) hx (fun _ => .enter ..) (fun _ _ => .enter ..)
    fun _ h => { h with scope := hid }

instance (e : Exclusion) (index : Nat) : Charted o f (inRegion e index x) := by
  have := hx.respects
  exact .enclosed (.inRegion e index x) hx (fun _ => .enter ..) (fun _ _ => .enter ..)
    fun _ h => { h with }

instance : Charted o f (inBlock x) := by
  have := hx.respects
  exact .enclosed (.inBlock x) hx (fun _ => .step (.aside ..)) (fun _ _ => .step (.aside ..))
    fun _ h => { h with }

theorem charted_inLoop {breakTarget : Nat} {continueTarget counter : Option Nat}
    (hf : f ≠ globalScope) (hbreak : o.table.IsTargetOf breakTarget f)
    (hcontinue : ∀ id, continueTarget = some id → o.table.IsTargetOf id f)
    (hcounter : ∀ id, counter = some id → o.table.IsVar id) :
    Charted o f (inLoop breakTarget continueTarget counter x) := by
  have := hx.respects
  refine .enclosed (.inLoop ..) hx (fun _ => .enter ..) (fun _ _ => .enter ..) fun s h => ?_
  refine { h with
    counts := fun frame hframe => ?_
    breaks := fun frame hframe => ?_
    continues := fun frame hframe => ?_
    outside := fun h => absurd h hf } <;> rcases List.mem_cons.1 hframe with rfl | hframe
  · exact hcounter
  · exact h.counts frame hframe
  · exact hbreak
  · exact h.breaks frame hframe
  · exact hcontinue
  · exact h.continues frame hframe

/-- Where a statement is abandoned, the walk goes on elsewhere. -/
instance [Respects .adding 0 x] : Charted o f (guarded x) where
  respects :=
    have loud : Respects .loud 0 (guarded x) := inferInstance
    loud.weaken
  run s hinside := by
    have hrun := hx.run s hinside
    cases h : x s with
    | ok a s₁ =>
      rw [h] at hrun
      rw [guarded_of_ok h]
      exact hrun
    | error e s₁ =>
      rw [h] at hrun
      by_cases he : e = .abandoned
      · subst he
        obtain ⟨blocks, hrecover⟩ :=
          State.recover_eq (hx.respects.error (Nat.zero_le _) h)
        rw [guarded_of_abandoned h, hrecover]
        split
        · intro _ hheads
          -- Going on only moves the cursor and drops open blocks.
          exact .trans (hrun (.inr rfl) ⟨hheads.table, hheads.recalled, hheads.quiet⟩) (.aside ..)
        · exact .of_doomed (.inr rfl)
      · rw [guarded_of_error h he]
        exact hrun

end Enclosing

/-! ### Making symbols and finding them again -/

theorem addSymbol_cases (scope : Nat) (name : String) (kind : SymbolKind) (s : State) :
    scope < s.table.size ∧ addSymbol scope name kind s =
      .ok s.table.size { s with table := s.table.add (some scope) name kind } ∨
    addSymbol scope name kind s = .error .broken s := by
  by_cases h : scope < s.table.size
  · exact .inl ⟨h, if_pos h⟩
  · exact .inr (if_neg h)

/-- From here `create` makes the next symbol, and with its record that is a course. -/
def Creates (T : Table) (index : Nat) (role : Role) (create : Walk Nat) (s : State) : Prop :=
  (∃ s₁, create s = .ok s.table.size s₁ ∧ Course T s { s₁ with
    declared := ⟨index, role, s.table.size, s₁.function, s₁.regions⟩ :: s₁.declared }) ∨
  ∃ s₁, create s = .error .broken s₁

theorem tracks_keyed {index : Nat} {role : Role} {create : Walk Nat}
    (hcreate : s.pass = .declare → Creates o.table index role create s)
    (hrole : role ≠ .function) : Tracks o s (keyed index role create s) := by
  rcases s.pass_cases with hpass | hpass
  · rcases hcreate hpass with ⟨s₁, hrun, hcourse⟩ | ⟨s₁, hrun⟩
    · rw [keyed_of_declare hpass hrun]
      exact .of_course hcourse
    · exact .of_doomed (keyed_of_doomed hpass (.inr (by rw [hrun]; rfl)))
  · rcases @keyed_of_emit index role create s hpass with
      ⟨d, -, hrun⟩ | ⟨hrun, -⟩ | ⟨hend, -⟩
    -- The second walk finds what was declared.
    · rw [hrun]
      exact .of_course (.move (.retrieve hpass hrole))
    · rw [hrun]
      exact .of_course (.refl s)
    · exact .of_doomed (.inl hend)

/-- What is known of a symbol that was made or found again. -/
theorem gives_keyed {index : Nat} {role : Role} {create : Walk Nat} {q : Nat → Prop}
    (hfirst : ∀ s id s₁, create s = .ok id s₁ → s₁.table.Grows o.table → q id)
    (hsecond : ∀ d : Declared, d.Sound o.table → d.role = role → d.function = f → q d.symbol) :
    Gives o f (keyed index role create) q := by
  intro s id s' hinside hrun hheads
  rcases s.pass_cases with hpass | hpass
  · unfold keyed record at hrun
    rw [emitting_bind_declare hpass, if_neg Bool.false_ne_true] at hrun
    obtain ⟨id₁, s₁, hcreate, hrest⟩ := bind_eq_ok.1 hrun
    cases hrest
    exact hfirst s _ s₁ hcreate hheads.table
  -- What is found again is sound.
  · obtain ⟨d, -, rfl, rfl⟩ := found_of_keyed hpass hrun
    exact hsecond ⟨index, role, d.symbol, s.function, s.regions⟩
      (o.sound _ (hheads.recalled _ List.mem_cons_self)) rfl hinside.function

theorem addSymbol_of_lt {scope : Nat} (h : scope < s.table.size) (name : String)
    (kind : SymbolKind) : addSymbol scope name kind s =
      .ok s.table.size { s with table := s.table.add (some scope) name kind } :=
  if_pos h

theorem attachMetadata_eq {owner : Nat} (h : owner < s.table.size) :
    attachMetadata owner s = .ok () (s.annotate owner) := by
  -- Entry by entry, with the owner in the table all along.
  have each : ∀ (entries : List (String × String)) (s : State), owner < s.table.size →
      (entries.forM fun x => do let _ ← addSymbol owner x.1 (.metadata x.2) : Walk Unit) s =
      .ok () { s with
        table := entries.foldl (fun t x => t.add (some owner) x.1 (.metadata x.2)) s.table } := by
    intro entries
    induction entries with
    | nil =>
      intro s _
      rfl
    | cons x entries ih =>
      intro s h
      show ((addSymbol owner x.1 (.metadata x.2) >>= fun _ => pure ()) >>= fun _ =>
        (entries.forM fun x => do let _ ← addSymbol owner x.1 (.metadata x.2) : Walk Unit)) s = _
      rw [bind_assoc, bind_of_ok (addSymbol_of_lt h x.1 (.metadata x.2))]
      apply ih
      rw [Table.size_add]
      exact Nat.lt_succ_of_lt h
  unfold attachMetadata
  rw [view_bind, change_bind]
  exact each s.metadata { s with metadata := [] } h

/-- A declaration is made if it passes the check of the first walk. -/
theorem Tracks.checked {check : Walk Unit} {y : Walk β} [hchecks : Checks check]
    (h : (s.pass = .declare → check s = .ok () s) → Tracks o s (y s)) :
    Tracks o s ((declaring check >>= fun _ => y) s) := by
  rcases s.pass_cases with hpass | hpass
  · have hdeclare := declaring_of_declare (x := check) hpass
    rcases hchecks.run s hpass with ⟨_, hrun⟩ | hdoomed | ⟨e, s', hrun, hlog⟩
    · rw [bind_of_ok (hdeclare.trans hrun)]
      exact h fun _ => hrun
    · rw [← hdeclare] at hdoomed
      exact .of_doomed hdoomed.bind
    · rw [bind_of_error (hdeclare.trans hrun)]
      exact .of_errors hlog
  -- The second walk does not check again.
  · rw [bind_of_ok (declaring_of_emit hpass)]
    exact h fun hpass' => by cases hpass.symm.trans hpass'

theorem Gives.checked {check : Walk Unit} {y : Walk β} {q : β → Prop}
    [hr : Respects .any 0 (declaring check)] (hy : Gives o f y q) :
    Gives o f (declaring check >>= fun _ => y) q := by
  intro s b s' hinside hrun hheads
  obtain ⟨_, s₁, hcheck, hrest⟩ := bind_eq_ok.1 hrun
  exact hy s₁ b s' (hinside.keeps (hr.ok (Nat.zero_le _) hcheck)) hrest hheads

end Walk

end StateScript
