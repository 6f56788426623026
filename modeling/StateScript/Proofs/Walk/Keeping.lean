import StateScript.Proofs.Walk.History

/-! # What walks leave alone

  Every rule of the grammar leaves the tokens, the pass and all that it enters (scope,
  function, loops, regions) as it found them, however it ends, and it only adds to the
  log, the table and the records of declarations. `Keeps` says so for one run and
  `Respects` for a walk. Grades say how much more a walk leaves alone:

  - `adding`: code is made at the ends of functions only;
  - `loud`: if the second walk abandons a statement there, the log has an error;
  - `plain`: besides, nothing is declared or looked up by its token, no target is bound, and
    no code is made outside of the current function;
  - `idle`: besides, no code is made at all;
  - `still`: besides, nothing happens to symbols and no storage is taken.

  Conversions of arguments are put into the middle of code. They are of the grade
  `patching`, which is `plain` but for that; `soft` and `any` stand in the same way to
  `loud` and `adding`.

  The parameter `b` of `Respects` is a token that the run starts at or after: the run never
  goes back in front of it, and what it declares stands there or later.

  `Respects` is a class, and so are the properties of walks in later modules. Each has an
  instance for every way in which rules are put together (one step after another, a branch,
  a loop) and for every primitive. A rule unfolds to these, so the search for its instance
  goes along its text. Where a rule is more than its parts, what it needs is proved by hand
  and given to the search. An instance holds those of all steps behind it. Its parts are
  shared, but counted as a tree it doubles with nearly every step, and so the modules that
  search whole rules lift the bound `synthInstance.maxSize`.
-/

namespace StateScript.Walk

variable {α β : Type} {g : Grade} {xs : List α} {s s' s₁ : State} {e : Stop} {k k' : SymbolKind}
  {x : Walk α} {a : α} {turn : α → Walk (Turn α β)} {f : α → Walk β}

/-! ### Grades -/

/-- How much a walk leaves alone. -/
inductive Grade where
  | any
  | soft
  | patching
  | adding
  | loud
  | plain
  | idle
  | still
deriving DecidableEq

def Grade.rank : Grade → Nat
  | .any | .adding => 0
  | .soft | .loud => 1
  | .patching | .plain => 2
  | .idle => 3
  | .still => 4

/-- Whether code is made at the ends of functions only. -/
def Grade.appends : Grade → Bool
  | .any | .soft | .patching => false
  | _ => true

/-- Whether targets may be bound. -/
def Grade.binds : Grade → Bool
  | .any | .soft | .adding | .loud => true
  | _ => false

/-- The grade of what may put code into the middle, but is else alike. -/
def Grade.slack : Grade → Grade
  | .adding => .any
  | .loud => .soft
  | .plain => .patching
  | g => g

theorem Grade.rank_slack (g : Grade) : g.slack.rank = g.rank := by
  cases g <;> rfl

theorem Grade.binds_eq_false (g : Grade) : g.binds = false ↔ 2 ≤ g.rank := by
  cases g <;> decide

/-- A walk of the grade `h` is one of the grade `g`. -/
class Grade.Within (g h : Grade) : Prop where
  le : g.rank ≤ h.rank
  appends : g.appends = true → h.appends = true

instance (h : Grade) : Grade.Within .any h := ⟨by cases h <;> decide, fun h => by cases h⟩
instance (g : Grade) : Grade.Within g .still := ⟨by cases g <;> decide, fun _ => rfl⟩
instance : Grade.Within .idle .idle := ⟨by decide, fun _ => rfl⟩
instance : Grade.Within .adding .adding := ⟨by decide, fun _ => rfl⟩
instance : Grade.Within .adding .loud := ⟨by decide, fun _ => rfl⟩
instance : Grade.Within .adding .plain := ⟨by decide, fun _ => rfl⟩
instance : Grade.Within .loud .loud := ⟨by decide, fun _ => rfl⟩
instance : Grade.Within .loud .plain := ⟨by decide, fun _ => rfl⟩
instance : Grade.Within .plain .plain := ⟨by decide, fun _ => rfl⟩
instance : Grade.Within .patching .patching := ⟨by decide, fun h => h⟩
instance : Grade.Within .soft .soft := ⟨by decide, fun h => h⟩
instance : Grade.Within .soft .patching := ⟨by decide, fun h => h⟩
instance : Grade.Within .soft .loud := ⟨by decide, fun _ => rfl⟩

instance (priority := low) (g : Grade) [h : g.Within .loud] : g.Within .plain :=
  ⟨Nat.le_succ_of_le h.le, fun _ => rfl⟩

instance (priority := low) (g : Grade) [h : g.Within .plain] : g.Within .idle :=
  ⟨Nat.le_succ_of_le h.le, fun _ => rfl⟩

instance (g : Grade) : g.slack.Within g := ⟨Nat.le_of_eq g.rank_slack, by cases g <;> decide⟩

instance (g : Grade) [h : g.Within .plain] : g.slack.Within .patching := by
  refine ⟨by rw [g.rank_slack]; exact h.le, ?_⟩
  cases g with
  | idle | still => exact absurd h.le (by decide)
  | _ => exact fun hs => by cases hs

instance (priority := low) (g : Grade) [h : g.Within .patching] : g.Within .plain :=
  ⟨h.le, fun _ => rfl⟩

/-! ### Runs -/

/-- A declaration that was refused has been reported. -/
def State.Faithful (s : State) : Prop := s.rejected ≠ [] → s.log.hasErrors = true

/-- The compiler has reported a failure of its own. -/
def Internal (log : Log) : Prop := ∃ d ∈ log.items, d.level = .fatal ∧ d.code = .internalError

/-- What is a failure of the compiler is reported as fatal. -/
def Proper (log : Log) : Prop := ∀ d ∈ log.items, d.code = .internalError → d.level = .fatal

/-- What the second walk finds again is the newest record for a token and a role. -/
def Found (declared : List Declared) (f : Declared) : Prop :=
  (declared.find? fun d => d.token == f.token && d.role == f.role).map Declared.symbol =
    some f.symbol

/-- A target has a record; only the compiler's own targets have it in a role other than
    that of a label. -/
def Marked (declared : List Declared) (id : Nat) (x : Symbol) : Prop :=
  ∃ d ∈ declared, d.symbol = id ∧ (x.identifier ≠ "$target" → d.role = .label)

/-- All literals of constants were there before, for the same type. -/
def LiteralsFrom (t t' : Table) : Prop :=
  ∀ id v' l, t'.var? id = some v' → v'.literal = some l →
    ∃ v, t.var? id = some v ∧ v.literal = some l ∧ v.type = v'.type

/-- A log with a fatal finding in it only if that has ended the run; then it is the last one. -/
structure FatalLast (e : Option Stop) (log : Log) : Prop where
  absent : e ≠ some .fatal → log.hasFatal = false
  last : e = some .fatal → ∃ items d, log.items = items ++ [d] ∧ d.level = .fatal ∧
    ∀ x ∈ items, x.level ≠ .fatal

theorem FatalLast.of_none {e : Option Stop} (he : e ≠ some .fatal) {log : Log}
    (h : log.hasFatal = false) : FatalLast e log :=
  ⟨fun _ => h, fun h => absurd h he⟩

theorem FatalLast.ended {log : Log} (h : log.hasFatal = false) : FatalLast none log :=
  .of_none (fun h => by cases h) h

theorem FatalLast.abandoned {log : Log} (h : log.hasFatal = false) :
    FatalLast (some .abandoned) log :=
  .of_none (fun h => by cases h) h

/-- States that differ only aside from symbols, storage and what the walk stands in. -/
def State.Aside (s s' : State) : Prop :=
  ∃ pos log rejected blocks metadata internalVariables,
    s' = { s with pos, log, rejected, blocks, metadata, internalVariables }

theorem State.Aside.trans {s s₁ s₂ : State} (h : s.Aside s₁) (h₁ : s₁.Aside s₂) : s.Aside s₂ := by
  obtain ⟨_, _, _, _, _, _, rfl⟩ := h
  obtain ⟨_, _, _, _, _, _, rfl⟩ := h₁
  exact ⟨_, _, _, _, _, _, rfl⟩

/-- What a run keeps that has started in `s`, at or after the token `b`, and has ended
    in `s'`. -/
structure Keeps (g : Grade) (b : Nat) (e : Option Stop) (s s' : State) : Prop where
  tokens : s'.tokens = s.tokens
  pass : s'.pass = s.pass
  function : s'.function = s.function
  scope : s'.scope = s.scope
  loops : s'.loops = s.loops
  regions : s'.regions = s.regions
  onward : e = none ∨ e = some .abandoned → b ≤ s'.pos
  log : s.log.items <+: s'.log.items
  fatal : s.log.hasFatal = false → FatalLast e s'.log
  proper : Proper s.log → Proper s'.log
  faithful : s.Faithful → s'.Faithful
  table : s.table.Grows s'.table
  wellFormed : s.table.WellFormed → s'.table.WellFormed
  records : ∃ new, s'.declared = new ++ s.declared ∧ ∀ d ∈ new, b ≤ d.token
  targets : ∀ id x, s.table.size ≤ id → s'.table.get? id = some x → x.kind.isTarget = true →
    Marked s'.declared id x
  recalls : ∃ new, s'.recalled = new ++ s.recalled ∧
    ∀ f ∈ new, s.pass = .emit ∧ b ≤ f.token ∧ Found s.declared f
  emit : s.pass = .emit → s'.declared = s.declared ∧ s'.rejected = s.rejected
  declare : s.pass = .declare → ∀ id, s'.table.code id = s.table.code id ∧
    s'.table.bound? id = s.table.bound? id
  code : g.appends = true → ∀ id, s.table.code id <+: s'.table.code id
  history : ∃ new, s'.history = new ++ s.history ∧
    Carries g.binds (fun _ => g.appends = true) s.table s'.table new
  loud : 1 ≤ g.rank → e = some .abandoned → s.pass = .emit → s.Faithful → s'.log.hasErrors = true
  internal : s.pass = .declare ∨ 2 ≤ g.rank → e = some .fatal → s.log.hasFatal = false →
    ¬ Internal s'.log
  plain : 2 ≤ g.rank → s'.declared = s.declared ∧ s'.recalled = s.recalled ∧
    LiteralsFrom s.table s'.table ∧ (∀ id, s'.table.bound? id = s.table.bound? id) ∧
    ∀ id, id ≠ s.function → s'.table.code id = s.table.code id
  idle : 3 ≤ g.rank → ∀ id, s'.table.code id = s.table.code id
  still : 4 ≤ g.rank → s.Aside s'

theorem hasErrors_mono {l l' : Log} (h : l.items <+: l'.items) (he : l.hasErrors = true) :
    l'.hasErrors = true := by
  unfold Log.hasErrors at *
  obtain ⟨d, hd, hlevel⟩ := List.any_eq_true.1 he
  exact List.any_eq_true.2 ⟨d, h.subset hd, hlevel⟩

theorem isSpace_eq_of_tag (h : k'.tag = k.tag) : k'.isSpace = k.isSpace := by
  cases k <;> cases k' <;> first | rfl | cases h

theorem isTarget_eq_of_tag (h : k'.tag = k.tag) : k'.isTarget = k.isTarget := by
  cases k <;> cases k' <;> first | rfl | cases h

theorem LiteralsFrom.trans {t t₁ t₂ : Table} (h : LiteralsFrom t t₁) (h₁ : LiteralsFrom t₁ t₂) :
    LiteralsFrom t t₂ := by
  intro id v l hv hl
  obtain ⟨v₁, hv₁, hl₁, hty₁⟩ := h₁ id v l hv hl
  obtain ⟨v₀, hv₀, hl₀, hty₀⟩ := h id v₁ l hv₁ hl₁
  exact ⟨v₀, hv₀, hl₀, hty₀.trans hty₁⟩

/-- A target that was there after the first of two runs still has its record. -/
theorem Marked.mono {declared declared' : List Declared} {id : Nat} {x x' : Symbol}
    (h : Marked declared id x) (hsub : ∀ d ∈ declared, d ∈ declared')
    (hname : x'.identifier = x.identifier) : Marked declared' id x' := by
  obtain ⟨d, hd, hid, hrole⟩ := h
  exact ⟨d, hsub d hd, hid, fun hne => hrole (hname ▸ hne)⟩

section Closure

variable {g : Grade} {b : Nat} {e : Option Stop} {s s₁ s₂ : State}

theorem Keeps.trans (h : Keeps g b none s s₁) (h₁ : Keeps g b e s₁ s₂) : Keeps g b e s s₂ where
  tokens := h₁.tokens.trans h.tokens
  pass := h₁.pass.trans h.pass
  function := h₁.function.trans h.function
  scope := h₁.scope.trans h.scope
  loops := h₁.loops.trans h.loops
  regions := h₁.regions.trans h.regions
  onward := h₁.onward
  log := h.log.trans h₁.log
  -- The first part has not stopped, so nothing was fatal before the second.
  fatal := fun hs => h₁.fatal ((h.fatal hs).absent nofun)
  proper := fun hs => h₁.proper (h.proper hs)
  faithful := fun hf => h₁.faithful (h.faithful hf)
  table := h.table.trans h₁.table
  wellFormed := fun hw => h₁.wellFormed (h.wellFormed hw)
  records := by
    obtain ⟨new, hnew, htoken⟩ := h.records
    obtain ⟨new₁, hnew₁, htoken₁⟩ := h₁.records
    exact ⟨new₁ ++ new, by rw [hnew₁, hnew, List.append_assoc],
      fun d hd => (List.mem_append.1 hd).elim (htoken₁ d) (htoken d)⟩
  targets := by
    intro id x hid hx htarget
    by_cases hid₁ : s₁.table.size ≤ id
    · exact h₁.targets id x hid₁ hx htarget
    · -- The target was made by the first run, and so is marked since then.
      obtain ⟨x₁, hx₁⟩ := Table.exists_get? (Nat.lt_of_not_le hid₁)
      obtain ⟨x', hx', grows⟩ := h₁.table id x₁ hx₁
      cases hx.symm.trans hx'
      obtain ⟨new₁, hnew₁, -⟩ := h₁.records
      have hmarked := h.targets id x₁ hid hx₁
        ((isTarget_eq_of_tag grows.kind.tag).symm.trans htarget)
      refine hmarked.mono (fun d hd => ?_) grows.identifier
      rw [hnew₁]
      exact List.mem_append_right _ hd
  -- The second walk adds no records, so what is found is found among the same ones.
  recalls := by
    obtain ⟨new, hnew, hfound⟩ := h.recalls
    obtain ⟨new₁, hnew₁, hfound₁⟩ := h₁.recalls
    refine ⟨new₁ ++ new, by rw [hnew₁, hnew, List.append_assoc], fun f hf => ?_⟩
    rcases List.mem_append.1 hf with hf | hf
    · obtain ⟨hpass, hb, hfound⟩ := hfound₁ f hf
      have hpass' := h.pass.symm.trans hpass
      exact ⟨hpass', hb, (h.emit hpass').1 ▸ hfound⟩
    · exact hfound f hf
  emit := by
    intro hpass
    obtain ⟨hd, hr⟩ := h.emit hpass
    obtain ⟨hd₁, hr₁⟩ := h₁.emit (h.pass.trans hpass)
    exact ⟨hd₁.trans hd, hr₁.trans hr⟩
  declare := by
    intro hpass id
    obtain ⟨hc, hb⟩ := h.declare hpass id
    obtain ⟨hc₁, hb₁⟩ := h₁.declare (h.pass.trans hpass) id
    exact ⟨hc₁.trans hc, hb₁.trans hb⟩
  code := fun hg id => (h.code hg id).trans (h₁.code hg id)
  history := by
    obtain ⟨new, hnew, hpart⟩ := h.history
    obtain ⟨new₁, hnew₁, hpart₁⟩ := h₁.history
    exact ⟨new₁ ++ new, by rw [hnew₁, hnew, List.append_assoc],
      hpart.trans hpart₁ fun _ _ _ hg => hg⟩
  loud := fun hg he hpass hf => h₁.loud hg he (h.pass.trans hpass) (h.faithful hf)
  internal := fun hg he hs =>
    h₁.internal (hg.imp_left h.pass.trans) he ((h.fatal hs).absent nofun)
  plain := by
    intro hg
    obtain ⟨hd, hr, hl, hb, hc⟩ := h.plain hg
    obtain ⟨hd₁, hr₁, hl₁, hb₁, hc₁⟩ := h₁.plain hg
    refine ⟨hd₁.trans hd, hr₁.trans hr, hl.trans hl₁, fun id => (hb₁ id).trans (hb id),
      fun id hid => ?_⟩
    exact (hc₁ id (h.function.symm ▸ hid)).trans (hc id hid)
  idle := fun hg id => (h₁.idle hg id).trans (h.idle hg id)
  still := fun hg => (h.still hg).trans (h₁.still hg)

/-- Nothing fatal has been found by a run that does not end the compilation. -/
theorem Keeps.running (h : Keeps g b none s s₁) (hs : s.log.hasFatal = false) :
    s₁.log.hasFatal = false :=
  (h.fatal hs).absent nofun

theorem Keeps.weaken {g' : Grade} [le : g.Within g'] (h : Keeps g' b e s s₁) : Keeps g b e s s₁ :=
  { h with
    code := fun hg => h.code (le.appends hg)
    history := by
      obtain ⟨new, hnew, hpart⟩ := h.history
      refine ⟨new, hnew, hpart.weaken ?_ fun _ => le.appends⟩
      rw [g.binds_eq_false, g'.binds_eq_false]
      exact fun hg => Nat.le_trans hg le.le
    loud := fun hg => h.loud (Nat.le_trans hg le.le)
    internal := fun hg => h.internal (hg.imp_right fun hg => Nat.le_trans hg le.le)
    plain := fun hg => h.plain (Nat.le_trans hg le.le)
    idle := fun hg => h.idle (Nat.le_trans hg le.le)
    still := fun hg => h.still (Nat.le_trans hg le.le) }

/-- A run that may declare something is loud if it abandons nothing in silence. -/
theorem Keeps.toLoud (h : Keeps .adding b e s s₁)
    (hloud : e = some .abandoned → s.pass = .emit → s.Faithful → s₁.log.hasErrors = true) :
    Keeps .loud b e s s₁ :=
  { h with
    loud := fun _ => hloud
    internal := fun hg => h.internal (hg.imp_right fun hg => absurd hg (by decide))
    plain := fun hg => absurd hg (by decide)
    idle := fun hg => absurd hg (by decide)
    still := fun hg => absurd hg (by decide) }

/-- A run that has put no code into the middle after all. -/
theorem Keeps.of_slack (h : Keeps g.slack b e s s₁)
    (hcode : g.appends = true → (∀ id, s.table.code id <+: s₁.table.code id) ∧ ∃ new,
      s₁.history = new ++ s.history ∧ Carries false (fun _ => True) s.table s₁.table new) :
    Keeps g b e s s₁ :=
  { h with
    code := fun hg => (hcode hg).1
    history := by
      cases hg : g.appends with
      | true =>
        obtain ⟨-, new, hnew, hpart⟩ := hcode hg
        exact ⟨new, hnew, hpart.weaken (fun _ => rfl) fun _ _ => trivial⟩
      | false =>
        obtain ⟨new, hnew, hpart⟩ := h.history
        refine ⟨new, hnew, hpart.weaken ?_ nofun⟩
        rw [g.binds_eq_false, g.slack.binds_eq_false, g.rank_slack]
        exact id
    loud := fun hg => h.loud (g.rank_slack.symm ▸ hg)
    internal := fun hg => h.internal (g.rank_slack.symm ▸ hg)
    plain := fun hg => h.plain (g.rank_slack.symm ▸ hg)
    idle := fun hg => h.idle (g.rank_slack.symm ▸ hg)
    still := fun hg => h.still (g.rank_slack.symm ▸ hg) }

end Closure

/-- Every run of the walk that starts at or after the token `b` keeps what `Keeps` says, and
    it goes the same way under all switches. -/
class Respects (g : Grade) (b : Nat) (x : Walk α) : Prop where
  run : ∀ s, b ≤ s.pos → Keeps g b (ending (x s)) s (final (x s))
  alike : ∀ {F G}, Indifferent F G b x

theorem Respects.of_parallel {b : Nat}
    (run : ∀ s, b ≤ s.pos → Keeps g b (ending (x s)) s (final (x s)))
    (parallel : ∀ F G (s : State), b ≤ s.pos → s.Unparted F G →
      Parallel F G (x (s.under F)) (x (s.under G))) : Respects g b x where
  run := run
  alike := by
    refine ⟨fun s a s₁ hpos hrun => ?_, fun s hpos => (run s hpos).log, parallel _ _⟩
    have hkeeps := run s hpos
    rw [hrun] at hkeeps
    exact hkeeps.onward (.inl rfl)

/-- A walk that does not look at the switches. -/
theorem Respects.of_under {b : Nat}
    (run : ∀ s, b ≤ s.pos → Keeps g b (ending (x s)) s (final (x s)))
    (h : ∀ s flags, x (s.under flags) = under (x s) flags) : Respects g b x :=
  .of_parallel run fun _ _ s hpos hs => .of_under hs (run s hpos).tokens (h s)

theorem Respects.ok {g : Grade} {b : Nat} {x : Walk α} (hx : Respects g b x) {s s₁ : State} {a : α}
    (hpos : b ≤ s.pos) (h : x s = .ok a s₁) : Keeps g b none s s₁ := by
  have hkeeps := hx.run s hpos
  rw [h] at hkeeps
  exact hkeeps

theorem le_pos_of_ok {b : Nat} [hx : Respects .any b x] (hpos : b ≤ s.pos) (h : x s = .ok a s₁) :
    b ≤ s₁.pos :=
  (hx.ok hpos h).onward (.inl rfl)

theorem Respects.error {b : Nat} (hx : Respects g b x) (hpos : b ≤ s.pos) (h : x s = .error e s₁) :
    Keeps g b (some e) s s₁ := by
  have hkeeps := hx.run s hpos
  rw [h] at hkeeps
  exact hkeeps

/-! ### Composition -/

section Composition

variable {g : Grade} {b : Nat}

/-- A change of the state aside from all that is kept. -/
theorem Keeps.aside {e : Option Stop} (he : ∀ x, e = some x → x = .broken) (s : State) {pos : Nat}
    (hpos : b ≤ pos) (blocks : List (List Nat)) (metadata : List (String × String))
    (internalVariables : Nat) :
    Keeps g b e s { s with pos, blocks, metadata, internalVariables } where
  tokens := rfl
  pass := rfl
  function := rfl
  scope := rfl
  loops := rfl
  regions := rfl
  onward _ := hpos
  log := List.prefix_rfl
  fatal := .of_none fun h => nomatch he _ h
  proper := id
  faithful := id
  table := .refl _
  wellFormed := id
  records := ⟨[], rfl, by simp⟩
  targets _ _ hid hx := absurd (Table.get?_lt hx) (Nat.not_lt_of_le hid)
  recalls := ⟨[], rfl, by simp⟩
  emit _ := ⟨rfl, rfl⟩
  declare _ _ := ⟨rfl, rfl⟩
  code _ _ := List.prefix_rfl
  history := ⟨[], rfl, .none (fun _ => rfl) fun _ => rfl⟩
  loud _ h := nomatch he _ h
  internal _ h := nomatch he _ h
  plain _ := ⟨rfl, rfl, fun _ v _ hv hl => ⟨v, hv, hl, rfl⟩, fun _ => rfl, fun _ _ => rfl⟩
  idle _ _ := rfl
  still _ := ⟨_, _, _, _, _, _, rfl⟩

theorem Keeps.refl {e : Option Stop} (he : ∀ x, e = some x → x = .broken) (hpos : b ≤ s.pos) :
    Keeps g b e s s :=
  .aside he s hpos ..

theorem Keeps.beside (s : State) {pos : Nat} (hpos : b ≤ pos) (blocks : List (List Nat))
    (metadata : List (String × String)) (internalVariables : Nat) :
    Keeps g b none s { s with pos, blocks, metadata, internalVariables } :=
  .aside (fun _ h => by cases h) s hpos ..

theorem Keeps.same (hpos : b ≤ s.pos) : Keeps g b none s s :=
  .beside s hpos ..

/-- Storage is taken, or states are made the first ones. -/
theorem Keeps.taken [hg : g.Within .idle] (s : State) (hpos : b ≤ s.pos)
    (memorySize localCount : Nat)
    (engineState editorState : Option Nat) :
    Keeps g b none s { s with memorySize, localCount, engineState, editorState } :=
  { Keeps.same (g := g) hpos with
    still := fun h => absurd (Nat.le_trans h hg.le) (by decide) }

theorem Keeps.broken (hpos : b ≤ s.pos) : Keeps g b (some .broken) s s :=
  .refl (fun _ h => (Option.some.inj h).symm) hpos

instance : Respects g b (pure a : Walk α) :=
  .of_under (fun _ h => Keeps.same h) fun _ _ => rfl

/-- A view that does not look at the switches. -/
theorem Respects.view {f : State → α} (h : ∀ s flags, f (s.under flags) = f s) :
    Respects g b (view f) :=
  .of_under (fun _ h => Keeps.same h)
    fun s flags => congrArg (EStateM.Result.ok · (s.under flags)) (h s flags)

/-- One run after the other. -/
theorem Keeps.bind (h : Keeps g b (ending (x s)) s (final (x s))) (hf : ∀ a s₁, x s = .ok a s₁ →
      Keeps g b none s s₁ → Keeps g b (ending (f a s₁)) s₁ (final (f a s₁))) :
    Keeps g b (ending ((x >>= f) s)) s (final ((x >>= f) s)) := by
  cases hrun : x s with
  | ok a s₁ =>
    rw [hrun] at h
    rw [bind_of_ok hrun]
    exact h.trans (hf a s₁ hrun h)
  | error e s₁ =>
    rw [hrun] at h
    rw [bind_of_error hrun]
    exact h

/-- One walk after another, of which only what the first gives matters. -/
theorem Respects.bind_of (hx : Respects g b x)
    (hf : ∀ s a s₁, b ≤ s.pos → x s = .ok a s₁ → Respects g b (f a)) : Respects g b (x >>= f) where
  run s hpos := (hx.run s hpos).bind fun a s₁ hrun h =>
    (hf s a s₁ hpos hrun).run s₁ (h.onward (.inl rfl))
  alike := hx.alike.bind_of fun s a s₁ hpos hrun => (hf s a s₁ hpos hrun).alike

theorem Respects.bind (hx : Respects g b x) (hf : ∀ a, Respects g b (f a)) :
    Respects g b (x >>= f) :=
  hx.bind_of fun _ a _ _ _ => hf a

/-- One walk after another of which it is known what it keeps. -/
theorem Respects.seq [hx : Respects g b x] (hf : ∀ a, Respects g b (f a)) :
    Respects g b (x >>= f) :=
  .bind hx hf

instance [hx : Respects g b x] [hf : ∀ a, Respects g b (f a)] : Respects g b (x >>= f) :=
  .bind hx hf

/-- Going two ways after a search. -/
instance (priority := low) {x : Walk (Option γ)} {f : Option γ → Walk β} [hx : Respects g b x]
    [hnone : Respects g b (f none)] [hsome : ∀ a, Respects g b (f (some a))] :
    Respects g b (x >>= f) :=
  .bind hx (Option.forall.2 ⟨hnone, hsome⟩)

instance (c : Prop) [Decidable c] (y : Walk α) [hx : Respects g b x] [hy : Respects g b y] :
    Respects g b (if c then x else y) := by
  split
  · exact hx
  · exact hy

instance Respects.broken : Respects g b (throw .broken : Walk α) :=
  .of_under (fun _ h => .broken h) fun _ _ => rfl

theorem Respects.weaken {g' : Grade} [g.Within g'] (h : Respects g' b x) : Respects g b x :=
  ⟨fun s hpos => (h.run s hpos).weaken, h.alike⟩

theorem Respects.of_slack (h : Respects g.slack b x) (hcode : ∀ s, b ≤ s.pos → g.appends = true →
      (∀ id, s.table.code id <+: (final (x s)).table.code id) ∧ ∃ new,
        (final (x s)).history = new ++ s.history ∧
        Carries false (fun _ => True) s.table (final (x s)).table new) : Respects g b x :=
  ⟨fun s hpos => (h.run s hpos).of_slack (hcode s hpos), h.alike⟩

instance (priority := low) [h : Respects g b x] : Respects g.slack b x := h.weaken

instance (priority := low) [h : Respects .adding b x] : Respects .any b x := h.weaken
instance (priority := low) [h : Respects .loud b x] : Respects .soft b x := h.weaken

theorem Respects.iterate (h : ∀ a, Respects g b (turn a)) (n : Nat) (a : α) :
    Respects g b (iterate turn n a) :=
  iterate_induction (P := Respects g b) .broken (fun _ => inferInstance) (fun a _ => (h a).bind) n a

/-- What is left of a loop after a turn. -/
theorem Respects.rest (h : ∀ a, Respects g b (turn a)) (n : Nat) (r : Turn α β) :
    Respects g b (match r with
      | .again a => Walk.iterate turn n a
      | .done c => pure c) := by
  cases r with
  | again a => exact .iterate h n a
  | done c => exact inferInstanceAs (Respects g b (pure c))

instance : Respects g b tokenCount := .view fun _ _ => rfl

theorem Respects.loop (h : ∀ a, Respects g b (turn a)) (a : α) : Respects g b (loop a turn) := by
  unfold Walk.loop
  exact .seq fun n => .iterate h _ _

instance [h : ∀ a, Respects g b (turn a)] : Respects g b (loop a turn) :=
  .loop h a

theorem Respects.forM {f : α → Walk Unit} (h : ∀ a ∈ xs, Respects g b (f a)) :
    Respects g b (xs.forM f) := by
  induction xs with
  | nil => exact inferInstanceAs (Respects g b (pure ()))
  | cons a xs ih =>
    exact Respects.bind (h a List.mem_cons_self) fun _ => ih fun a ha =>
      h a (List.mem_cons_of_mem _ ha)

instance (f : α → Walk Unit) [h : ∀ a, Respects g b (f a)] : Respects g b (xs.forM f) :=
  .forM fun a _ => h a

theorem Respects.foldlM {f : β → α → Walk β} (h : ∀ b' a, Respects g b (f b' a)) (init : β) :
    Respects g b (xs.foldlM f init) := by
  induction xs generalizing init with
  | nil => exact inferInstanceAs (Respects g b (pure init))
  | cons a xs ih => exact Respects.bind (h init a) fun b' => ih b'

end Composition

end StateScript.Walk
