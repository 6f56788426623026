import StateScript.Proofs.Places
import StateScript.Proofs.Walk.StatementCourse

/-! # What a course makes of the table

  Whatever a move does to the table is a sequence of edits: a symbol is added, or the kind
  of one is altered in place. Most moves are `Calm`: they add what nobody declares, and
  alter symbols in few ways, and neither records nor counters change. All others are
  declarations of one symbol, or of a function with its parameters. What is to be shown of
  every move is shown of these three.
-/

namespace StateScript

/-- The parameters of a function are counted right. -/
def SymbolKind.Counts (k : SymbolKind) : Prop :=
  ∀ f, k = .function f → f.parameterCount = f.parameterTypes.length

namespace Table

/-! ### Edits -/

/-- One edit of a table: an addition that `p` allows, or an alteration that `q` allows. -/
inductive Edit (p : Nat → SymbolKind → Prop) (q : Nat → (SymbolKind → SymbolKind) → Prop)
    (t : Table) : Table → Prop
  | add {owner : Nat} (name : String) {kind : SymbolKind} (howner : owner < t.size)
      (hcounts : kind.Counts) (h : p owner kind) : Edit p q t (t.add (some owner) name kind)
  | alter {id : Nat} {g : SymbolKind → SymbolKind}
      (hgrows : ∀ k, t.kind? id = some k → k.Grows (g k)) (hcounts : ∀ k, k.Counts → (g k).Counts)
      (h : q id g) : Edit p q t (t.modifyKind id g)

abbrev Edits (p : Nat → SymbolKind → Prop) (q : Nat → (SymbolKind → SymbolKind) → Prop) :
    Table → Table → Prop :=
  Relation.ReflTransGen (Edit p q)

variable {α : Type} {p p' : Nat → SymbolKind → Prop} {q q' : Nat → (SymbolKind → SymbolKind) → Prop}
  {t t' : Table}

theorem Edit.grows (h : Edit p q t t') : t.Grows t' := by
  cases h with
  | add name => exact grows_add _ name _
  | alter hgrows => exact grows_modifyKind hgrows

theorem Edit.wellFormed (h : Edit p q t t') (hform : t.WellFormed) : t'.WellFormed := by
  cases h with
  | add name howner hcounts => exact hform.add howner name hcounts
  | @alter id g hgrows hcounts =>
    refine hform.modifyKind fun k f hk hf => hcounts k (fun f₀ hf₀ => ?_) f hf
    exact hform.counts id f₀ (function?_eq_some.2 (hk.trans (congrArg some hf₀)))

theorem Edits.grows (h : Edits p q t t') : t.Grows t' := by
  induction h with
  | refl => exact .refl t
  | tail _ hedit ih => exact ih.trans hedit.grows

theorem Edits.wellFormed (h : Edits p q t t') (hform : t.WellFormed) : t'.WellFormed := by
  induction h with
  | refl => exact hform
  | tail _ hedit ih => exact hedit.wellFormed ih

theorem Edits.mono (h : Edits p q t t') (hp : ∀ owner kind, p owner kind → p' owner kind)
    (hq : ∀ id g, q id g → q' id g) : Edits p' q' t t' := by
  refine Relation.ReflTransGen.mono (r := Edit p q) (fun t t' hedit => ?_) _ _ h
  cases hedit with
  | add name howner hcounts hown => exact .add name howner hcounts (hp _ _ hown)
  | alter hgrows hcounts hown => exact .alter hgrows hcounts (hq _ _ hown)

/-- What alterations leave alone stays. -/
theorem Edits.see {view : SymbolKind → Option α} (h : Edits p q t t')
    (hq : ∀ id g, q id g → ∀ k, view (g k) = view k) {j : Nat} (hj : j < t.size) :
    t'.see view j = t.see view j := by
  induction h with
  | refl => rfl
  | @tail t₁ t₂ hedits hedit ih =>
    rw [← ih]
    cases hedit with
    | add name =>
      exact see_add_of_lt name _ view (Nat.lt_of_lt_of_le hj (Edits.grows hedits).size_le)
    | alter _ _ h => exact see_modifyKind (hq _ _ h)

/-- What is seen in the end was there before or is new. -/
theorem Edits.see_eq_some {view : SymbolKind → Option α} (h : Edits p q t t')
    (hq : ∀ id g, q id g → ∀ k, view (g k) = view k) {j : Nat} {a : α}
    (ha : t'.see view j = some a) :
    t.see view j = some a ∨
      ∃ owner kind, p owner kind ∧ view kind = some a ∧ t'.scope? j = some owner := by
  induction h with
  | refl => exact .inl ha
  | @tail t₁ t₂ _ hedit ih =>
    cases hedit with
    | @add owner name kind howner _ hown =>
      rw [see_add] at ha
      rw [scope?_add]
      split at ha
      · next hj => exact .inr ⟨owner, kind, hown, ha, if_pos hj⟩
      · next hj =>
        rw [if_neg hj]
        exact ih ha
    | alter _ _ h =>
      rw [see_modifyKind (hq _ _ h)] at ha
      rw [scope?_modifyKind]
      exact ih ha

/-- Symbols of one owner that are added one after the other. -/
theorem edits_foldl_add {owner : Nat} {β : Type} (name : β → String) (kind : β → SymbolKind)
    (hcounts : ∀ x, (kind x).Counts) {items : List β} (h : ∀ x ∈ items, p owner (kind x))
    {t : Table}
    (howner : owner < t.size) :
    Edits p q t (items.foldl (fun t x => t.add (some owner) (name x) (kind x)) t) := by
  induction items generalizing t with
  | nil => exact .refl
  | cons x items ih =>
    have hx := h x List.mem_cons_self
    refine .head (.add (name x) howner (hcounts x) hx)
      (ih (fun y hy => h y (List.mem_cons_of_mem _ hy)) ?_)
    rw [size_add]
    exact Nat.lt_succ_of_lt howner

end Table

namespace Walk

variable {T : Table} {s s' : State} {owner : Nat} {q : Nat → (SymbolKind → SymbolKind) → Prop}
  {p : Nat → SymbolKind → Prop} {role : Role} {s₁ : State} {k : SymbolKind}

/-! ### Additions and alterations -/

/-- Which symbols are added without a declaration of their own. -/
inductive Gains (s : State) : Nat → SymbolKind → Prop
  | discovered {owner : Nat} {name : String} {kind : SymbolKind}
      (new : Discovers s.table owner name kind) :
      Gains s owner kind
  | metadata (owner : Nat) (value : String) : Gains s owner (.metadata value)
  | space {owner : Nat} (houter : owner ≠ memberScope) : Gains s owner .space

/-- How symbols are altered. -/
inductive Alters (T : Table) (s : State) : Nat → (SymbolKind → SymbolKind) → Prop
  | use (id : Nat) : Alters T s id SymbolKind.markUsed
  | settle (id : Nat) (g : Variable → Variable) [Settling g] : Alters T s id (·.mapVariable g)
  | fix {id : Nat} (types : List ValueType) (hmethod : T.IsMethod id) :
      Alters T s id (·.mapFunction (Function.fixed types))
  | code (put : Array Instruction → Array Instruction) (hpass : s.pass = .emit) :
      Alters T s s.function (·.mapFunction fun f => { f with code := put f.code })
  | place {id : Nat} (hpass : s.pass = .emit) (hinside : s.function ≠ globalScope)
      (haims : T.scope? id = some s.function) : Alters T s id (placed s.here)

theorem counts_mapVariable (g : Variable → Variable) (h : k.Counts) : (k.mapVariable g).Counts := by
  cases k with
  | function f => exact h
  | _ => exact fun _ hf => by cases hf

theorem counts_markUsed (h : k.Counts) : k.markUsed.Counts := by
  cases k with
  | function f =>
    rintro _ ⟨⟩
    exact h f rfl
  | _ => exact fun _ hf => by cases hf

theorem counts_mapFunction {g : Function → Function} (hg : ∀ f, f.parameterCount =
      f.parameterTypes.length → (g f).parameterCount = (g f).parameterTypes.length) (h : k.Counts) :
    (k.mapFunction g).Counts := by
  cases k with
  | function f =>
    rintro _ ⟨⟩
    exact hg f (h f rfl)
  | _ => exact fun _ hf => by cases hf

theorem counts_placed (place : Nat) (h : k.Counts) : (placed place k).Counts := by
  cases k with
  | function f => exact h
  | _ => exact fun _ hf => by cases hf

theorem edits_emit (hpass : s.pass = .emit) (op : Opcode) (operands : List Operand)
    (place : Option Nat) :
    Table.Edits p (Alters T s) s.table (s.emit op operands place).table := by
  obtain ⟨i, files, -, h⟩ := s.emit_eq op operands place
  rw [h]
  refine .single (.alter (fun k _ => grows_code (putAt · place i) k) (fun k => ?_)
    (.code (putAt · place i) hpass))
  apply counts_mapFunction
  exact fun _ h => h

theorem edits_settle (id : Nat) (g : Variable → Variable) [hg : Settling g] (t : Table) :
    Table.Edits p (Alters T s) t (t.modifyKind id (·.mapVariable g)) :=
  .single (.alter (fun k _ => grows_mapVariable hg.kind (fun v => congrArg _ (hg.storage v)) k)
    (fun _ => counts_mapVariable g) (.settle id g))

theorem Step.edits (h : Step T s s') : Table.Edits (Gains s) (Alters T s) s.table s'.table := by
  cases h with
  | aside => exact .refl
  | use id =>
    exact .single (.alter (fun k _ => grows_markUsed k) (fun k => counts_markUsed) (.use id))
  | discover hscope new =>
    refine .single (.add _ hscope (fun f hf => ?_) (.discovered new))
    cases new with
    | method =>
      cases hf
      rfl
    | _ => cases hf
  | @fix id f types hmethod hf hused =>
    refine .single (.alter (fun k hk => ?_) (fun k => ?_) (.fix types hmethod))
    -- The parameters of a method are fixed when it is first used.
    · cases hk.symm.trans (Table.function?_eq_some.1 hf)
      exact .ofFunction rfl rfl fun h => by rw [hused] at h; cases h
    · apply counts_mapFunction
      exact fun _ _ => rfl
  | emit hpass => exact edits_emit hpass ..

theorem edits_annotate (h : ∀ value, p owner (.metadata value)) (howner : owner < s.table.size) :
    Table.Edits p q s.table (s.annotate owner).table :=
  Table.edits_foldl_add Prod.fst (fun entry => .metadata entry.2) (fun _ _ hf => by cases hf)
    (fun entry _ => h entry.2) howner

theorem table_parametrise (function : Nat) (all : List (Parameter × Nat)) (s : State) :
    (s.parametrise function all).table = all.foldl (fun t p =>
      t.add (some function) p.1.name.text (.var (p.1.variable p.2))) s.table := by
  unfold State.parametrise
  induction all generalizing s with
  | nil => rfl
  | cons p all ih =>
    rw [List.foldl_cons, List.foldl_cons, ih]
    rfl

/-- What a new function gets: metadata and parameters. -/
inductive Attaches : SymbolKind → Prop
  | metadata (value : String) : Attaches (.metadata value)
  | parameter (p : Parameter) (ordinal : Nat) : Attaches (.var (p.variable ordinal))

theorem edits_attached (h : Head) (s : State) :
    Table.Edits (fun owner kind => owner = s.table.size ∧ Attaches kind) q
      (s.table.add (some s.scope) h.name (.function h.function)) (s.introduce h).table := by
  have hsize : s.table.size < (s.table.add (some s.scope) h.name
      (.function h.function)).size := by simp
  have hmetadata : Table.Edits (fun owner kind => owner = s.table.size ∧ Attaches kind) q _
      ((s.declare h.token (functionRole h.modifiers) s.scope h.name (.function h.function)).annotate
        s.table.size).table :=
    edits_annotate (fun value => ⟨rfl, .metadata value⟩) hsize
  refine .trans hmetadata ?_
  unfold State.introduce
  rw [table_parametrise]
  exact Table.edits_foldl_add _ _ (fun _ _ hf => by cases hf) (fun x _ => ⟨rfl, .parameter x.1 x.2⟩)
    (Nat.lt_of_lt_of_le hsize hmetadata.grows.size_le)

/-- A new function with what it gets. -/
theorem edits_introduce {h : Head} (admits : s.Admits h) :
    Table.Edits (fun owner kind => owner = s.scope ∧ kind = .function h.function ∨
      owner = s.table.size ∧ Attaches kind) q s.table (s.introduce h).table := by
  refine .head (.add h.name admits.scope (fun f hf => ?_) (.inl ⟨rfl, rfl⟩))
    ((edits_attached h s).mono (fun _ _ hown => .inr hown) fun _ _ h => h)
  cases hf
  simp [Head.function]

theorem Declares.table {name : String} {kind : SymbolKind}
    (h : Declares s role owner name kind s₁) : s₁.table = s.table := by
  cases h <;> rfl

theorem Declares.records {name : String} {kind : SymbolKind}
    (h : Declares s role owner name kind s₁) : s₁.declared = s.declared := by
  cases h <;> rfl

theorem Declares.counts {name : String} {kind : SymbolKind}
    (h : Declares s role owner name kind s₁) : kind.Counts := by
  cases h <;> exact fun _ hf => by cases hf

/-- A change of the table and nothing else of what is counted and recorded. -/
structure Calm (T : Table) (s s' : State) : Prop where
  edits : Table.Edits (Gains s) (Alters T s) s.table s'.table
  declared : s'.declared = s.declared
  memorySize : s'.memorySize = s.memorySize
  localCount : s'.localCount = s.localCount
  engineState : s'.engineState = s.engineState
  editorState : s'.editorState = s.editorState

/-- What a move that is not calm declares. -/
inductive Establishes (s : State) : State → Prop
  | one (token : Nat) {role : Role} {owner : Nat} {name : String} {kind : SymbolKind} {s₁ : State}
      (hpass : s.pass = .declare) (howner : owner < s.table.size) (houter : owner ≠ memberScope)
      (new : Declares s role owner name kind s₁) :
      Establishes s (s₁.declare token role owner name kind)
  | function {h : Head} (hpass : s.pass = .declare) (admits : s.Admits h)
      (hbody : h.modifiers.flags.imported = true ∨ ¬ Opens s.tokens h.token) :
      Establishes s (s.introduce h)

theorem Step.calm (h : Step T s s') : Calm T s s' := by
  have hedits := h.edits
  cases h <;> exact ⟨hedits, rfl, rfl, rfl, rfl, rfl⟩

theorem Move.calm_or_establishes (h : Move T s s') : Calm T s s' ∨ Establishes s s' := by
  cases h with
  | step h => exact .inl h.calm
  | enter | retrieve => exact .inl ⟨.refl, rfl, rfl, rfl, rfl, rfl⟩
  | annotate howner =>
    exact .inl ⟨edits_annotate (fun value => .metadata _ value) howner, rfl, rfl, rfl, rfl, rfl⟩
  | space howner houter =>
    exact .inl ⟨.single (.add _ howner (fun _ hf => by cases hf) (.space houter)), rfl, rfl, rfl,
      rfl, rfl⟩
  | declare token hpass howner houter new => exact .inr (.one token hpass howner houter new)
  | introduce hpass admits hbody => exact .inr (.function hpass admits hbody)
  | literal id t => exact .inl ⟨edits_settle id _ s.table, rfl, rfl, rfl, rfl, rfl⟩
  | retype id type => exact .inl ⟨edits_settle id _ s.table, rfl, rfl, rfl, rfl, rfl⟩
  | jump hpass => exact .inl ⟨edits_emit hpass .., rfl, rfl, rfl, rfl, rfl⟩
  | bind hpass hinside haims =>
    exact .inl ⟨.single (.alter (fun k _ => grows_kind_placed s.here k)
      (fun _ => counts_placed s.here)
      (.place hpass hinside haims.scope)), rfl, rfl, rfl, rfl, rfl⟩

theorem Establishes.grows (h : Establishes s s') : s.table.Grows s'.table := by
  cases h with
  | @one token role owner name kind s₁ hpass howner houter new =>
    rw [← new.table]
    exact Table.grows_add owner name kind
  | function _ admits => exact (edits_introduce (q := fun _ _ => False) admits).grows

theorem Establishes.wellFormed (h : Establishes s s') (hform : s.table.WellFormed) :
    s'.table.WellFormed := by
  cases h with
  | @one token role owner name kind s₁ hpass howner houter new =>
    rw [← new.table] at hform howner
    exact hform.add howner name new.counts
  | function _ admits => exact (edits_introduce (q := fun _ _ => False) admits).wellFormed hform

theorem Move.grows (h : Move T s s') : s.table.Grows s'.table := by
  rcases h.calm_or_establishes with calm | established
  · exact calm.edits.grows
  · exact established.grows

theorem Move.wellFormed (h : Move T s s') (hform : s.table.WellFormed) : s'.table.WellFormed := by
  rcases h.calm_or_establishes with calm | established
  · exact calm.edits.wellFormed hform
  · exact established.wellFormed hform

/-! ### What stays -/

/-- What no move changes. -/
structure Steady (s s' : State) : Prop where
  tokens : s'.tokens = s.tokens
  pass : s'.pass = s.pass
  function : s'.function = s.function

theorem Steady.trans {s s₁ s₂ : State} (h : Steady s s₁) (h₁ : Steady s₁ s₂) : Steady s s₂ :=
  ⟨h₁.tokens.trans h.tokens, h₁.pass.trans h.pass, h₁.function.trans h.function⟩

theorem Step.steady (h : Step T s s') : Steady s s' := by
  cases h <;> exact ⟨rfl, rfl, rfl⟩

theorem steady_introduce (h : Head) (s : State) : Steady s (s.introduce h) := by
  obtain ⟨table, declared, hintroduce⟩ := introduce_eq h s
  rw [hintroduce]
  exact ⟨rfl, rfl, rfl⟩

theorem Move.steady (h : Move T s s') : Steady s s' := by
  cases h with
  | step h => exact h.steady
  | introduce => exact steady_introduce ..
  | declare token hpass howner houter new => cases new <;> exact ⟨rfl, rfl, rfl⟩
  | _ => exact ⟨rfl, rfl, rfl⟩

theorem Steps.steady (h : Steps T s s') : Steady s s' := by
  induction h with
  | refl => exact ⟨rfl, rfl, rfl⟩
  | tail _ hstep ih => exact ih.trans hstep.steady

theorem Course.steady (h : Course T s s') : Steady s s' := by
  induction h with
  | refl => exact ⟨rfl, rfl, rfl⟩
  | move h => exact h.steady
  | trans _ _ ih ih₁ => exact ih.trans ih₁
  | outside h => exact ⟨h.steady.tokens, h.steady.pass, rfl⟩
  | @framed s s₁ h _ _ _ _ ih =>
    have hintroduce := steady_introduce h s
    exact ⟨ih.tokens.trans hintroduce.tokens, ih.pass.trans hintroduce.pass, rfl⟩
  | filled _ _ _ _ _ _ ih ih₁ => exact ⟨ih₁.tokens.trans ih.tokens, ih₁.pass.trans ih.pass, rfl⟩

/-- What is kept where a frame is laid out. -/
theorem keeps_layFrame (s : State) (function : Nat) :
    Keeps .any 0 none s { s with table := layFrame s.table function s.localCount } :=
  .finished s (Nat.zero_le _) function

theorem Steps.grows (h : Steps T s s') : s.table.Grows s'.table := by
  induction h with
  | refl => exact .refl _
  | tail _ hstep ih => exact ih.trans hstep.edits.grows

theorem Steps.wellFormed (h : Steps T s s') (hform : s.table.WellFormed) : s'.table.WellFormed := by
  induction h with
  | refl => exact hform
  | tail _ hstep ih => exact hstep.edits.wellFormed ih

/-- Symbols stay. -/
theorem Course.grows (h : Course T s s') : s.table.Grows s'.table := by
  induction h with
  | refl => exact .refl _
  | move h => exact h.grows
  | trans _ _ ih ih₁ => exact ih.trans ih₁
  | outside h => exact h.grows
  | framed _ admits _ _ ih =>
    have hintroduce := (edits_introduce (q := fun _ _ => False) admits).grows
    exact (hintroduce.trans ih).trans (keeps_layFrame ..).table
  | filled hpass _ _ _ parameters body ih ih₁ =>
    have hpass₁ := body.steady.pass.trans (parameters.steady.pass.trans hpass)
    exact (ih.trans ih₁).trans
      (edits_emit (T := T) (p := fun _ _ => False) hpass₁ .ret [] none).grows

theorem Course.wellFormed (h : Course T s s') (hform : s.table.WellFormed) :
    s'.table.WellFormed := by
  induction h with
  | refl => exact hform
  | move h => exact h.wellFormed hform
  | trans _ _ ih ih₁ => exact ih₁ (ih hform)
  | outside h => exact h.wellFormed hform
  | framed _ admits _ _ ih =>
    have hintroduce := (edits_introduce (q := fun _ _ => False) admits).wellFormed hform
    exact (keeps_layFrame ..).wellFormed (ih hintroduce)
  | filled hpass _ _ _ parameters body ih ih₁ =>
    have hpass₁ := body.steady.pass.trans (parameters.steady.pass.trans hpass)
    exact (edits_emit (T := T) (p := fun _ _ => False) hpass₁ .ret [] none).wellFormed
      (ih₁ (ih hform))

/-! ### Invariants -/

/-- What is true of a state in any surroundings, and is kept by all that a move does. -/
structure Invariant (T : Table) (P : State → Prop) : Prop where
  moved {s : State} {function scope localCount : Nat} (hs : P s) :
    P { s with function, scope, localCount }
  calm {s s' : State} (h : Calm T s s') (hs : P s) : P s'
  declare {s s₁ : State} {token owner : Nat} {role : Role} {name : String} {kind : SymbolKind}
    (howner : owner < s.table.size) (houter : owner ≠ memberScope)
    (new : Declares s role owner name kind s₁) (hs : P s) :
    P (s₁.declare token role owner name kind)
  introduce {s : State} {h : Head} (admits : s.Admits h) (hs : P s) : P (s.introduce h)
  frame {s : State} (function : Nat) (hform : s.table.WellFormed) (hs : P s) :
    P { s with table := layFrame s.table function s.localCount }

namespace Invariant

variable {P : State → Prop} (invariant : Invariant T P)

include invariant

theorem move (h : Move T s s') (hs : P s) : P s' := by
  rcases h.calm_or_establishes with calm | established
  · exact invariant.calm calm hs
  · cases established with
    | one token hpass howner houter new => exact invariant.declare howner houter new hs
    | function hpass admits => exact invariant.introduce admits hs

theorem steps (h : Steps T s s') (hs : P s) : P s' := by
  induction h with
  | refl => exact hs
  | tail _ hstep ih => exact invariant.calm hstep.calm ih

/-- What every move keeps, a course keeps. -/
theorem course (h : Course T s s') (hform : s.table.WellFormed) (hs : P s) : P s' := by
  induction h with
  | refl => exact hs
  | move h => exact invariant.move h hs
  | trans h _ ih ih₁ => exact ih₁ (h.wellFormed hform) (ih hform hs)
  | outside h => exact invariant.moved (invariant.steps h (invariant.moved hs))
  | @framed s s₁ _ _ admits _ body ih =>
    have hform₀ := (edits_introduce (q := fun _ _ => False) admits).wellFormed hform
    have hs₁ : P s₁ := ih hform₀ (invariant.moved (invariant.introduce admits hs))
    exact invariant.moved (invariant.frame _ (body.wellFormed hform₀) hs₁)
  | @filled s s₀ s₁ token id hpass _ _ _ parameters body ih ih₁ =>
    have hs₀ : P s₀ := ih hform (invariant.calm (s := s) ⟨.refl, rfl, rfl, rfl, rfl, rfl⟩ hs)
    have hs₁ : P s₁ := ih₁ (parameters.wellFormed hform) (invariant.moved hs₀)
    -- Behind the body comes a return.
    have hpass₁ := body.steady.pass.trans (parameters.steady.pass.trans hpass)
    exact invariant.moved (invariant.calm ⟨edits_emit hpass₁ .., rfl, rfl, rfl, rfl, rfl⟩ hs₁)

end Invariant

end Walk

end StateScript
