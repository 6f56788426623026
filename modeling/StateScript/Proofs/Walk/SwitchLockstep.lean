import StateScript.Proofs.Walk.StatementLockstep

/-! # Switches in step

  The first walk may not know the type of a value yet that a `switch` tests. Then it can
  take a label for an invalid literal where the second walk does not, and it abandons the
  whole statement without a report. It goes on behind the closing brace, which is where the
  second walk gets to by going through the statement (`Parts`).

  What the second walk finds again in the meantime the first has not declared. So nothing
  is found, and nothing has been missed.
-/

namespace StateScript.Walk

variable {c c' : Clauses} {g : Grade} {cs : List Kind} {start stop : Nat} {s t t' : State}
  {d : Unit}

set_option synthInstance.maxSize 1000000000

variable {α β γ δ : Type} {k : Mode} {b : Nat} {o o' : Nat → Prop}

/-! ### Walks that part -/

/-- The first walk has abandoned a statement in the state `s`. The second has gone on to
    the state `t`. If it has found something again, something is before the token `n`. -/
structure Parts (k : Mode) (o : Nat → Prop) (n : Nat) (s t : State) : Prop where
  level : Level { s with pos := t.pos } t
  alike : Alike k s t
  formed : s.table.WellFormed
  faithful : t.Faithful
  inside : k.isInner = true → s.function ≠ globalScope
  le : s.pos ≤ t.pos
  past : k.isClose = true → ∀ d ∈ s.declared, d.token < s.pos
  close : k.isClose = true → Close o { s with pos := t.pos } t ∨
    ∃ r ∈ t.recalled, s.pos ≤ r.token ∧ r.token < n ∧ Found t.declared r

namespace Parts

variable {s t t' : State} {n : Nat}

theorem of_abreast (h : Abreast k o s t) : Parts k o n s t := by
  have hmoved : { s with pos := t.pos } = s := by rw [h.pos]
  refine ⟨hmoved ▸ h.toLevel, h.alike, h.formed, h.faithful, h.inside, h.pos ▸ Nat.le_refl _,
    fun hk => (h.close hk).past, fun hk => .inl ?_⟩
  rw [hmoved]
  exact h.close hk

/-- Nothing has been found in the meantime. -/
theorem abreast (h : Parts k o n s t) (hnone : k.isClose = true → t.recalled = s.declared) :
    Abreast k o { s with pos := t.pos } t := by
  refine ⟨h.level, h.alike.control rfl rfl, h.formed, h.faithful, h.inside, fun hk => ?_⟩
  rcases h.close hk with hclose | ⟨r, hr, hfrom, -⟩
  · exact hclose
  · exact absurd hfrom (Nat.not_le_of_lt (h.past hk r (hnone hk ▸ hr)))

theorem mono (h : Parts k o n s t) (ho : ∀ id, o id → o' id) : Parts k o' n s t :=
  { h with close := fun hk => (h.close hk).imp_left fun hclose => { hclose with
    settled := fun r hr hno => hclose.settled r hr fun hid => hno (ho _ hid) } }

/-- The second walk goes on. What it finds is no longer close to what the first has
    declared, and then it does not matter which targets are open. -/
theorem keeps {n' : Nat} (h : Parts k o n s t) (hkeeps : Keeps .any t.pos none t t') (hn : n ≤ n')
    (hacross : t'.recalled = t.recalled ∧ (∀ id, o id → o' id) ∨
      ∃ r ∈ t'.recalled, t.pos ≤ r.token ∧ r.token < n') : Parts k o' n' s t' := by
  have hle : t.pos ≤ t'.pos := hkeeps.onward (.inl rfl)
  refine ⟨⟨h.level.first, hkeeps.pass.trans h.level.second, hkeeps.tokens.trans h.level.tokens, rfl,
    ?_, h.level.fits, hkeeps.running h.level.running⟩, h.alike.control rfl hkeeps.control,
    h.formed, hkeeps.faithful h.faithful, h.inside, Nat.le_trans h.le hle, h.past, fun hk => ?_⟩
  · rw [hkeeps.loops]
    exact h.level.counters
  obtain ⟨more, hmore, hmore'⟩ := hkeeps.recalls
  rw [(hkeeps.emit h.level.second).1]
  rcases h.close hk with hclose | ⟨r, hr, hfrom, hbefore, hfound⟩
  · rcases hacross with ⟨hsame, ho⟩ | ⟨r, hr, hfrom, hbefore⟩
    · refine .inl ⟨hsame.trans hclose.records, fun r hr => ?_, ?_, ?_⟩
      · exact Nat.lt_of_lt_of_le (hclose.past r hr) hle
      · rw [hsame]
        exact fun r hr => hkeeps.table.exists_kind (hclose.exists_kind r hr)
      · rw [hsame]
        intro r hr hopen
        exact (hclose.settled r hr fun hid => hopen (ho _ hid)).mono hkeeps.table
    · refine .inr ⟨r, hr, Nat.le_trans h.le hfrom, hbefore, ?_⟩
      -- What the first walk has declared already does not stand on the way.
      rcases List.mem_append.1 (hmore ▸ hr) with hnew | hold
      · exact (hmore' r hnew).2.2
      · rw [hclose.records] at hold
        exact absurd (Nat.le_trans h.le hfrom) (Nat.not_le_of_lt (h.past hk r hold))
  · rw [hmore]
    exact .inr ⟨r, List.mem_append_right _ hr, hfrom, Nat.lt_of_lt_of_le hbefore hn, hfound⟩

theorem onward {y : Walk β} {d : β} [ay : Advances y] (h : Parts k o (t.pos + 1) s t)
    (hrun : y t = .ok d t') (ho : t'.recalled = t.recalled → ∀ id, o id → o' id) :
    Parts k o' (t'.pos + 1) s t' := by
  have hkeeps := (ay.respects t.pos).ok (Nat.le_refl _) hrun
  refine h.keeps hkeeps (Nat.succ_le_succ (hkeeps.onward (.inl rfl))) ?_
  exact (ay.ok h.level.second hrun).imp (fun hsame => ⟨hsame, ho hsame⟩)
    fun ⟨r, hr, hfrom, hbefore⟩ => ⟨r, hr, hfrom, Nat.lt_succ_of_le hbefore⟩

theorem plain {y : Walk β} {d : β} [ry : ∀ b, Respects .plain b y] (h : Parts k o n s t)
    (hrun : y t = .ok d t') : Parts k o n s t' := by
  have hkeeps := (ry t.pos).ok (Nat.le_refl _) hrun
  have any : Respects .any t.pos y := (ry t.pos).weaken
  exact h.keeps (any.ok (Nat.le_refl _) hrun) (Nat.le_refl _)
    (.inl ⟨(hkeeps.plain (Nat.le_refl _)).2.1, fun _ h => h⟩)

/-- The second walk binds a target. -/
theorem bound (h : Parts k o n s t) (id : Nat) :
    Parts k (fun j => o j ∧ j ≠ id) n s (t.bind id) := by
  refine ⟨{ h.level with }, h.alike.control rfl rfl, h.formed, h.faithful, h.inside, h.le,
    h.past, fun hk => (h.close hk).imp_left fun hclose => ?_⟩
  exact ((h.abreast fun _ => hclose.records).bound id).close hk

/-- Both walks leave what they have entered. -/
theorem apart {s₀ t₀ : State} (h : Parts k o n s t) (hs : Apart s s₀) (ht : Apart t t₀)
    (halike : Alike k s₀ t₀) (hinside : k.isInner = true → s₀.function ≠ globalScope) :
    Parts k o n s₀ t₀ := by
  -- Seen from where the second walk stands.
  have hs' : Apart { s with pos := t.pos } { s₀ with pos := t₀.pos } :=
    { hs with pos := ht.pos }
  refine ⟨⟨?_, ?_, ?_, rfl, halike.counters, ?_, ?_⟩, halike, ?_, ?_, hinside, ?_, fun hk => ?_,
    fun hk => ?_⟩
  · rw [hs'.pass, h.level.first]
  · rw [ht.pass, h.level.second]
  · rw [hs'.tokens, ht.tokens, h.level.tokens]
  · rw [hs'.table]
    exact h.level.fits
  · rw [ht.log, h.level.running]
  · rw [hs.table]
    exact h.formed
  · unfold State.Faithful
    rw [ht.rejected, ht.log]
    exact h.faithful
  · rw [hs.pos, ht.pos]
    exact h.le
  · rw [hs.declared, hs.pos]
    exact h.past hk
  · refine (h.close hk).imp (fun hclose => ?_) fun hmissed => ?_
    · have habreast := h.abreast fun _ => hclose.records
      exact (habreast.apart hs' ht (halike.control rfl rfl) hinside).close hk
    · rw [ht.recalled, hs.pos, ht.declared]
      exact hmissed

end Parts

/-- Where the second walk gets through `y` without an error, the first gets through `x`, or
    it abandons the statement somewhere on the way. -/
structure Splits (k : Mode) (b : Nat) (o : Nat → Prop) (x : Walk α) (y : Walk β) (Q : α → β → Prop)
    (o' : β → Nat → Prop) : Prop where
  run : ∀ {s t t' : State} {d : β}, b ≤ s.pos → Abreast k o s t → Known k (x s) t → y t = .ok d t' →
    t'.log.hasErrors = false →
    (∃ a s', x s = .ok a s' ∧ Q a d ∧ Abreast k (o' d) s' t') ∨
    ∃ s', x s = .error .abandoned s' ∧ Reaches .braces [] t [] s' ∧ Reaches .braces [] s' [] t' ∧
      Parts k (o' d) (t'.pos + 1) s' t'

namespace Splits

variable {x : Walk α} {y : Walk β}

theorem of_marches {Q : α → β → Prop} {o' : β → Nat → Prop} (h : Marches k false b o x y Q o') :
    Splits k b o x y Q o' where
  run hpos habreast hknown hrun hlog := by
    rcases h.ok hpos habreast hknown hrun hlog with ⟨h, -⟩ | h
    · cases h
    · exact .inl h

theorem opens {x : Walk α} {y : Walk β} {Q : α → β → Prop} {o₁ : Nat → Prop} {o' : β → Nat → Prop}
    (h : Splits k b o₁ x y Q o') (ho : ∀ id, o id → o₁ id) : Splits k b o x y Q o' :=
  ⟨fun hpos habreast => h.run hpos (habreast.mono ho)⟩

/-- One rule after the other. The second walk goes on alone if they part in the first. -/
theorem bind {f : α → Walk γ} {g : β → Walk δ} {R : α → β → Prop} {Q : γ → δ → Prop}
    {o₁ : β → Nat → Prop} {o₂ : δ → Nat → Prop} [forward : Forward b x] [ry : Respects .any 0 y]
    (rf : ∀ b a, Respects .any b (f a)) (rg : ∀ d, Respects .any 0 (g d))
    [ny : Nests .braces none [] [] y] (ng : ∀ d, Nests .braces none [] [] (g d))
    (hx : Splits k b o x y R o₁) (hf : ∀ a d, R a d → Splits k b (o₁ d) (f a) (g d) Q o₂) (hg : ∀ {s
      t t' d c}, Parts k (o₁ d) (t.pos + 1) s t → g d t = .ok c t' →
      Parts k (o₂ c) (t'.pos + 1) s t') : Splits k b o (x >>= f) (y >>= g) Q o₂ where
  run {s t t' c} hpos habreast hknown hrun hlog := by
    obtain ⟨d, t₁, ht₁, hrun⟩ := bind_eq_ok.1 hrun
    have hkeeps := ry.ok (Nat.zero_le _) ht₁
    have hlog₁ := hasErrors_eq_false_mono ((rg d).ok (Nat.zero_le _) hrun).log hlog
    rcases hx.run hpos habreast hknown.first ht₁ hlog₁ with
      ⟨a, s₁, hs₁, hR, habreast₁⟩ | ⟨s₁, hs₁, hreaches, hreaches', hparts⟩
    · rw [bind_of_ok hs₁] at hknown ⊢
      have hreaches := ny.ok habreast.second habreast.faithful (.none t) ht₁ hlog₁
      rcases (hf a d hR).run (forward.le hpos hs₁) habreast₁ (hknown.keeps habreast.second hkeeps)
        hrun hlog with h | ⟨s', hs', hreaches', hrest⟩
      · exact .inl h
      · exact .inr ⟨s', hs', hreaches.trans hreaches' hkeeps.tokens, hrest⟩
    -- The first walk was abandoned, so the second goes on alone.
    · have hrest := (ng d).ok hparts.level.second hparts.faithful (.none t₁) hrun hlog
      exact .inr ⟨s₁, bind_of_error hs₁, hreaches, hreaches'.trans hrest hparts.level.tokens,
        hg hparts hrun⟩

/-- A rule that both walks get through in front. -/
theorem after {f : α → Walk γ} {g : β → Walk δ} {R : α → β → Prop} {Q : γ → δ → Prop}
    {o₁ : β → Nat → Prop} {o₂ : δ → Nat → Prop} [forward : Forward b x] [ry : Respects .any 0 y]
    (rf : ∀ b a, Respects .any b (f a)) (rg : ∀ d, Respects .any 0 (g d))
    [ny : Nests .braces none [] [] y] (hx : Marches k false b o x y R o₁)
    (hf : ∀ a d, R a d → Splits k b (o₁ d) (f a) (g d) Q o₂) :
    Splits k b o (x >>= f) (y >>= g) Q o₂ where
  run {s t t' c} hpos habreast hknown hrun hlog := by
    obtain ⟨d, t₁, ht₁, hrun⟩ := bind_eq_ok.1 hrun
    have hkeeps := ry.ok (Nat.zero_le _) ht₁
    have hlog₁ := hasErrors_eq_false_mono ((rg d).ok (Nat.zero_le _) hrun).log hlog
    have hreaches := ny.ok habreast.second habreast.faithful (.none t) ht₁ hlog₁
    rcases hx.ok hpos habreast hknown.first ht₁ hlog₁ with ⟨h, -⟩ | ⟨a, s₁, hs₁, hR, habreast₁⟩
    · cases h
    · rw [bind_of_ok hs₁] at hknown ⊢
      rcases (hf a d hR).run (forward.le hpos hs₁) habreast₁ (hknown.keeps habreast.second hkeeps)
        hrun hlog with h | ⟨s', hs', hreaches', hrest⟩
      · exact .inl h
      · exact .inr ⟨s', hs', hreaches.trans hreaches' hkeeps.tokens, hrest⟩

theorem after_blind {x : Walk γ} {f : γ → Walk α} {g : γ → Walk β} {Q : α → β → Prop}
    {o₂ : β → Nat → Prop} [Blind x] [rx : ∀ b, Respects .plain b x] [Nests .braces none [] [] x]
    (rf : ∀ b a, Respects .any b (f a)) (rg : ∀ d, Respects .any 0 (g d))
    (hf : ∀ c, Splits k b o (f c) (g c) Q o₂) : Splits k b o (x >>= f) (x >>= g) Q o₂ := by
  have any : ∀ b, Respects .any b x := fun b => (rx b).weaken
  exact after rf rg (.of_agrees .blind) fun a _ h => h ▸ hf a

end Splits

/-! ### Labels -/

/-- A run of the first walk that stays where it is. It may abandon the statement. -/
def Strays (x : Walk α) : Prop :=
  ∀ s : State, s.pass = .declare → Doomed (x s) ∨ (∃ a s', x s = .ok a s' ∧ s'.pos = s.pos) ∨
    ∃ s', x s = .error .abandoned s' ∧ s'.pos = s.pos

theorem Strays.of_still {x : Walk α} [hx : Still .declare x] : Strays x := by
  intro s hpass
  rcases doomed_or_ok (hx.lasts rfl s hpass) with h | ⟨a, s', hrun⟩
  · exact .inl h
  · exact .inr (.inl ⟨a, s', hrun, (hx.stays hpass hrun).1⟩)

theorem Strays.bind {x : Walk α} {f : α → Walk β} [hx : Still .declare x] [rx : Respects .any 0 x]
    (hf : ∀ a, Strays (f a)) : Strays (x >>= f) := by
  intro s hpass
  rcases doomed_or_ok (hx.lasts rfl s hpass) with h | ⟨a, s₁, hrun⟩
  · exact .inl h.bind
  · rw [bind_of_ok hrun, ← (hx.stays hpass hrun).1]
    exact hf a s₁ ((rx.ok (Nat.zero_le _) hrun).pass.trans hpass)

theorem strays_literalOperand (t : Token) (type : ValueType) : Strays (literalOperand t type) := by
  unfold literalOperand
  split
  · exact .of_still
  · split
    · exact .of_still
    · intro s hpass
      unfold errorHere
      rw [position_bind]
      refine .inr (.inr ?_)
      obtain ⟨log, -, -, -, -, hrun⟩ := errorAt_eq (α := Operand) s.pos .invalidLiteral
        s!"'{t.render}' is not a valid {type.render} literal" s
      exact ⟨_, hrun, rfl⟩

theorem Splits.strays {x : Walk α} {y : Walk β} (hx : Strays x) [rx : ∀ b, Respects .plain b x]
    [hy : Still .emit y] [ry : Respects .plain 0 y] :
    Splits k b o x y (fun _ _ => True) (fun _ => o) := by
  constructor
  intro s t t' d hpos habreast hknown hrun hlog
  have hkeeps := ry.ok (Nat.zero_le _) hrun
  have hpos' := (hy.stays habreast.second hrun).1
  rcases hx s habreast.first with hdoomed | ⟨a, s', hs', hstays⟩ | ⟨s', hs', hstays⟩
  · exact absurd hdoomed hknown.ends
  · refine .inl ⟨a, s', hs', trivial, ?_⟩
    refine habreast.keeps ((rx 0).ok (Nat.zero_le _) hs') hkeeps ?_ (Nat.le_of_eq hstays.symm)
    rw [hpos', hstays, habreast.pos]
  -- Abandoned, but still at the same token.
  · have habreast' : Abreast k o s' t' := by
      refine habreast.keeps ((rx 0).error (Nat.zero_le _) hs') hkeeps ?_ (Nat.le_of_eq hstays.symm)
      rw [hpos', hstays, habreast.pos]
    refine .inr ⟨s', hs', .inl ?_, .inl ?_, .of_abreast habreast'⟩
    · rw [hstays, habreast.pos]
      exact .refl ..
    · rw [habreast'.pos]
      exact .refl ..

/-- A label that is the name of a constant. -/
def namedLabel (type : ValueType) (index : Nat) (path : List Token) : Walk Operand := do
  match ← resolvePath path fun x => x.kind.var?.any (·.literal.isSome) with
  | some id =>
    markUsed id
    match (← symbol id).kind.var?.bind (·.literal) with
    | some t => literalOperand t type
    | none => return .int 0
  | none =>
    if ← emitting then
      errorAt index .invalidLiteral
        "case labels must be literals or constants with a literal value"
    else return .int 0

/-- A label behind a literal that there may be. -/
def labelWith (type : ValueType) : Option Token → Walk Operand
  | some t => literalOperand t type
  | none => position >>= fun index => qualifiedPath >>= namedLabel type index

theorem caseLabel_eq (type : ValueType) :
    caseLabel type = foldedLiteral? [.colon] >>= labelWith type := rfl

section Labels

variable (type : ValueType) (index : Nat) (path : List Token)

instance [g.Within .plain] : Respects g b (namedLabel type index path) := by
  unfold namedLabel
  refine .seq fun found => ?_
  split
  · refine .seq fun _ => .seq fun x => ?_
    split <;> infer_instance
  · infer_instance

instance : Still .emit (namedLabel type index path) := by
  unfold namedLabel
  refine .seq fun found => ?_
  split
  · refine .seq fun _ => .seq fun x => ?_
    split <;> infer_instance
  · infer_instance

theorem strays_namedLabel : Strays (namedLabel type index path) := by
  unfold namedLabel
  refine .bind fun found => ?_
  split
  · refine .bind fun _ => .bind fun x => ?_
    split
    · exact strays_literalOperand _ _
    · exact .of_still
  · intro s hpass
    rw [emitting_bind_declare hpass]
    exact .inr (.inl ⟨_, s, rfl, rfl⟩)

instance [g.Within .plain] (literal : Option Token) : Respects g b (labelWith type literal) := by
  unfold labelWith
  split <;> infer_instance

end Labels

theorem splits_caseLabel (type type' : ValueType) :
    Splits k b o (caseLabel type) (caseLabel type') (fun _ _ => True) (fun _ => o) := by
  rw [caseLabel_eq, caseLabel_eq]
  refine .after_blind inferInstance inferInstance fun literal => ?_
  cases literal with
  | some t =>
    show Splits k b o (literalOperand t type) (literalOperand t type') _ _
    exact .strays (strays_literalOperand t type)
  | none =>
    show Splits k b o (position >>= fun index => qualifiedPath >>= namedLabel type index)
      (position >>= fun index => qualifiedPath >>= namedLabel type' index) _ _
    refine .after_blind inferInstance inferInstance fun index => ?_
    refine .after_blind inferInstance inferInstance fun path => ?_
    exact .strays (strays_namedLabel type index path)

/-! ### Clauses -/

theorem splits_caseTest (value value' : Nat) (type type' : ValueType) (next next' : Nat) :
    Splits k b o (caseTest value type next) (caseTest value' type' next') (fun _ _ => True)
      (fun _ => o) := by
  unfold caseTest
  refine .bind inferInstance inferInstance inferInstance (splits_caseLabel type type')
    (fun _ _ _ => .of_marches ?_) fun h hrun => h.onward hrun fun _ _ h => h
  refine .bind_blind fun _ => .bind_still fun _ _ => .bind_still fun _ _ => ?_
  exact .bind_still fun _ _ => .of_agrees .still

/-- Clauses that both walks know of. Their targets may differ. -/
structure Clauses.Alike (c c' : Clauses) : Prop where
  test : c'.test.isSome = c.test.isSome
  default : c'.default.isSome = c.default.isSome

theorem marches_defaultTest (h : c.Alike c') (index next next' : Nat) :
    InStep k b o (defaultTest c index next) (defaultTest c' index next') o := by
  unfold defaultTest
  rw [h.default]
  dsimp only
  refine .ite (fun _ => .never) fun _ => .bind_blind fun _ => .of_agrees .still

theorem splits_clauseTest (h : c.Alike c') (kind : Kind) (value value' : Nat)
    (type type' : ValueType) (index next next' : Nat) :
    Splits k b o (clauseTest kind value type c index next)
      (clauseTest kind value' type' c' index next') (fun _ _ => True) (fun _ => o) := by
  unfold clauseTest
  split
  · exact splits_caseTest ..
  · exact .of_marches (marches_defaultTest h index next next')

/-- A test that has been waited for has its place. -/
theorem marches_pendingTest {test test' : Option Nat} (h : test'.isSome = test.isSome)
    (next next' : Nat) : Marches k false b o (pendingTest test next) (pendingTest test' next')
      (fun _ _ => True) (fun _ j => o j ∧ test' ≠ some j) := by
  cases test' with
  | none =>
    cases test with
    | none => exact .pure trivial fun _ hid => ⟨hid, nofun⟩
    | some id => cases h
  | some id' =>
    cases test with
    | none => cases h
    | some id =>
      refine .bind_still fun _ _ => (Marches.bindTarget id id').mono (fun _ _ h => h) ?_
      rintro _ j ⟨hj, hne⟩
      exact ⟨hj, fun h => hne (Option.some.inj h).symm⟩

/-- The start of a clause: its word and its targets. -/
def clauseHead (clauses : Clauses) : Walk (Nat × Kind × Nat × Nat) := do
  let index ← position
  let kind ← clauseKind
  let start ← target index .body
  let nextTest ← target index .test
  pendingTest clauses.test start
  return (index, kind, start, nextTest)

/-- The statements of a clause. -/
def clauseBody (inner : Walk Unit) (clauses : Clauses) (kind : Kind) (start nextTest : Nat) :
    Walk Clauses := do
  bind start
  statementsUntil endsClause inner
  return { test := some nextTest
           default := if kind == .kwCase then clauses.default else some start }

theorem switchClause_eq (inner : Walk Unit) (value : Nat) (type : ValueType) (clauses : Clauses) :
    switchClause inner value type clauses = clauseHead clauses >>= fun p =>
      clauseTest p.2.1 value type clauses p.1 p.2.2.2 >>= fun _ =>
        clauseBody inner clauses p.2.1 p.2.2.1 p.2.2.2 := by
  unfold switchClause clauseHead clauseBody
  simp only [bind_assoc, pure_bind]

instance (clauses : Clauses) : Respects .any b (clauseHead clauses) := by
  unfold clauseHead
  infer_instance

instance (clauses : Clauses) : Nests .braces none cs cs (clauseHead clauses) := by
  unfold clauseHead
  infer_instance

/-- Of two clauses the targets are open that have just been made. -/
theorem marches_clauseHead (h : c.Alike c') :
    Marches k false b (fun j => o j ∨ c'.test = some j) (clauseHead c) (clauseHead c')
      (fun p q => p.1 = q.1 ∧ p.2.1 = q.2.1) (fun q j => o j ∨ j = q.2.2.1 ∨ j = q.2.2.2) := by
  unfold clauseHead
  refine .position (fun hrun => ?_) fun index kind => ?_
  · rw [(clauseKind_eq_ok hrun).2.2]
    exact Nat.lt_succ_self _
  refine .target (Nat.lt_succ_self index) fun start start' => ?_
  refine .target (Nat.lt_succ_self index) fun next next' => ?_
  refine .bind (marches_pendingTest h.test start start') fun _ _ _ => .pure ⟨rfl, rfl⟩ ?_
  -- The pending test is bound, and two new targets are open.
  rintro j ⟨((hj | hj) | hj) | hj, hne⟩
  · exact .inl hj
  · exact absurd hj hne
  · exact .inr (.inl hj)
  · exact .inr (.inr hj)

section Inner

variable (inner : Walk Unit) [∀ b, Respects .any b inner]

instance (clauses : Clauses) (kind : Kind) (next : Nat) :
    Respects .any b (clauseBody inner clauses kind start next) := by
  unfold clauseBody
  infer_instance

instance [∀ cs, Nests .braces none cs cs inner] (clauses : Clauses) (kind : Kind) (next : Nat) :
    Nests .braces none cs cs (clauseBody inner clauses kind start next) := by
  unfold clauseBody
  infer_instance

theorem marches_clauseBody (hinner : ∀ k b o, InStep k b o inner inner o) (h : c.Alike c')
    (kind : Kind) (start start' next next' : Nat) :
    Marches k false b (fun j => o j ∨ j = start' ∨ j = next') (clauseBody inner c kind start next)
      (clauseBody inner c' kind start' next') Clauses.Alike (fun d j => o j ∨ d.test = some j) := by
  unfold clauseBody
  refine .bind (Marches.bindTarget start start') fun _ _ _ => ?_
  refine .bind (inStep_statementsUntil inner hinner endsClause) fun _ _ _ => .pure ⟨rfl, ?_⟩ ?_
  · dsimp only
    split
    · exact h.default
    · rfl
  -- Only the next test stays open.
  · rintro j ⟨hj | hj | hj, hne⟩
    · exact .inl hj
    · exact absurd hj hne
    · exact .inr (congrArg some hj.symm)

variable [Advances inner]

omit [∀ b, Respects .any b inner] in
theorem Parts.clauseBody {d : Clauses} {kind : Kind} {next : Nat}
    (h : Parts k (fun j => o j ∨ j = start ∨ j = next) (t.pos + 1) s t)
    (hrun : Walk.clauseBody inner c kind start next t = .ok d t') :
    Parts k (fun j => o j ∨ d.test = some j) (t'.pos + 1) s t' := by
  unfold Walk.clauseBody at hrun
  obtain ⟨_, t₀, ht₀, hrun⟩ := bind_eq_ok.1 hrun
  cases state_of_bind h.level.second ht₀
  obtain ⟨_, t₁, ht₁, hrun⟩ := bind_eq_ok.1 hrun
  cases hrun
  refine (h.bound start).onward ht₁ ?_
  rintro - j ⟨hj | hj | hj, hne⟩
  · exact .inl hj
  · exact absurd hj hne
  · exact .inr (congrArg some hj.symm)

variable [∀ cs, Nests .braces none cs cs inner] (hinner : ∀ k b o, InStep k b o inner inner o)
include hinner

/-- Both walks get through a clause, or the first abandons the switch at the label. -/
theorem splits_switchClause (h : c.Alike c') (value value' : Nat) (type type' : ValueType) :
    Splits k b (fun j => o j ∨ c'.test = some j)
      (switchClause inner value type c) (switchClause inner value' type' c') Clauses.Alike
      (fun d j => o j ∨ d.test = some j) := by
  rw [switchClause_eq, switchClause_eq]
  refine .after inferInstance inferInstance (marches_clauseHead h) ?_
  rintro ⟨index, kind, start, next⟩ ⟨index', kind', start', next'⟩ ⟨hindex, hkind⟩
  cases hindex
  cases hkind
  refine .bind inferInstance inferInstance inferInstance
    (splits_clauseTest h kind value value' type type' index next next') (fun _ _ _ => ?_)
    fun hparts hrun => hparts.clauseBody inner hrun
  exact .of_marches (marches_clauseBody inner hinner h kind start start' next next')

omit [Advances inner] [∀ cs, Nests .braces none cs cs inner] hinner in
/-- The second walk finds the targets of a clause. -/
theorem recalled_switchClause {value : Nat} {type : ValueType} {d : Clauses}
    (hpass : t.pass = .emit) (hrun : switchClause inner value type c t = .ok d t') :
    t'.recalled ≠ t.recalled := by
  unfold switchClause at hrun
  rw [position_bind] at hrun
  obtain ⟨kind, t₁, ht₁, hrun⟩ := bind_eq_ok.1 hrun
  obtain ⟨-, -, rfl⟩ := clauseKind_eq_ok ht₁
  obtain ⟨start, t₂, ht₂, hrun⟩ := bind_eq_ok.1 hrun
  -- The target of the clause is found, and what follows forgets nothing.
  have hfound : ∃ r, t₂.recalled = r :: t.recalled := by
    unfold target at ht₂
    rw [view_bind] at ht₂
    obtain ⟨d, -, -, rfl⟩ := found_of_keyed (t := { t with pos := t.pos + 1 }) hpass ht₂
    exact ⟨_, rfl⟩
  have rest : Respects .any 0 (do
      let nextTest ← target t.pos .test
      pendingTest c.test start
      clauseTest kind value type c t.pos nextTest
      bind start
      statementsUntil endsClause inner
      return ({ test := some nextTest
                default := if kind == .kwCase then c.default else some start } :
                  Clauses)) := inferInstance
  obtain ⟨r, hr⟩ := hfound
  obtain ⟨new, hnew, -⟩ := (rest.ok (Nat.zero_le _) hrun).recalls
  rw [hnew, hr]
  intro h
  have := congrArg List.length h
  simp at this
  omega

omit hinner [∀ b, Respects .any b inner] [Advances inner]
  [∀ cs, Nests .braces none cs cs inner]

/-- The next clause, if there is one. -/
def clauseTurn (value : Nat) (type : ValueType) (clauses : Clauses) : Walk (Turn Clauses Clauses) :=
  check .closeBrace >>= fun isLast =>
    if isLast then pure (.done clauses)
    else switchClause inner value type clauses >>= fun clauses => pure (.again clauses)

theorem clausesUntilBrace_eq (value : Nat) (type : ValueType) :
    clausesUntilBrace inner value type = loop {} (clauseTurn inner value type) := rfl

end Inner

/-- The clauses after a turn. -/
def turnClauses : Turn Clauses Clauses → Clauses
  | .again c => c
  | .done c => c

/-- Two turns that are both the last or both not. -/
def TurnsAlike (r r' : Turn Clauses Clauses) : Prop :=
  match r, r' with
  | .again c, .again c' => c.Alike c'
  | .done c, .done c' => c.Alike c'
  | _, _ => False

section Inner

variable (inner : Walk Unit) [∀ b, Respects .any b inner]

instance (value : Nat) (type : ValueType) (clauses : Clauses) :
    Respects .any b (clauseTurn inner value type clauses) := by
  unfold clauseTurn
  infer_instance

/-- What the second walk finds in further clauses, the first has not declared. -/
theorem Parts.clauses {t : State} {value : Nat} {type : ValueType} {n : Nat} {c d : Clauses}
    (h : Parts k (fun j => o j ∨ c.test = some j) (t.pos + 1) s t)
    (hrun : iterate (clauseTurn inner value type) n c t = .ok d t') :
    Parts k (fun j => o j ∨ d.test = some j) (t'.pos + 1) s t' := by
  induction n generalizing c t with
  | zero => cases hrun
  | succ n ih =>
    obtain ⟨r, t₁, ht₁, hrun⟩ := bind_eq_ok.1 hrun
    obtain ⟨isLast, t₂, ht₂, ht₁⟩ := bind_eq_ok.1 ht₁
    obtain ⟨rfl, -⟩ := check_eq_ok ht₂
    split at ht₁
    · cases ht₁
      cases hrun
      exact h
    · obtain ⟨c₁, t₃, ht₃, ht₁⟩ := bind_eq_ok.1 ht₁
      cases ht₁
      refine ih (h.onward ht₃ fun hsame => ?_) hrun
      -- Every further clause recalls targets of its own.
      exact absurd hsame (recalled_switchClause inner h.level.second ht₃)

variable [Advances inner] [∀ cs, Nests .braces none cs cs inner]

instance (value : Nat) (type : ValueType) (clauses : Clauses) :
    Nests .braces none cs cs (clauseTurn inner value type clauses) := by
  unfold clauseTurn
  infer_instance

variable (hinner : ∀ k b o, InStep k b o inner inner o)
include hinner

theorem splits_clauseTurn (h : c.Alike c') (value value' : Nat) (type type' : ValueType) :
    Splits k b (fun j => o j ∨ c'.test = some j)
      (clauseTurn inner value type c) (clauseTurn inner value' type' c') TurnsAlike
      (fun r j => o j ∨ (turnClauses r).test = some j) := by
  unfold clauseTurn
  refine .after_blind inferInstance inferInstance fun isLast => ?_
  cases isLast with
  | true => exact .of_marches (.pure h fun _ h => h)
  | false =>
    refine .bind inferInstance inferInstance inferInstance
      (splits_switchClause inner hinner h value value' type type') (fun d d' hd => ?_) ?_
    · exact .of_marches (.pure hd fun _ h => h)
    · intro s t t' d r hparts hrun
      cases hrun
      exact hparts

theorem splits_clauses {c c' : Clauses} (h : c.Alike c') (value value' : Nat)
    (type type' : ValueType) (n : Nat) : Splits k b (fun j => o j ∨ c'.test = some j)
      (iterate (clauseTurn inner value type) n c) (iterate (clauseTurn inner value' type') n c')
      Clauses.Alike (fun d j => o j ∨ d.test = some j) := by
  induction n generalizing c c' with
  | zero => exact ⟨fun _ _ _ hrun => by cases hrun⟩
  | succ n ih =>
    have rest : ∀ value type b c, Respects .any b (iterate (clauseTurn inner value type) n c) :=
      fun value type b c => .iterate (fun _ => inferInstance) n c
    have nests : ∀ c, Nests .braces none [] [] (iterate (clauseTurn inner value' type') n c) :=
      fun c => .iterate (fun _ => inferInstance) n c
    -- One clause, and the induction hypothesis for the clauses behind it.
    refine .bind (fun b r => ?_) (fun r => ?_) (fun r => ?_)
      (splits_clauseTurn inner hinner h value value' type type') (fun r r' hr => ?_) ?_
    · cases r <;> infer_instance
    · cases r <;> infer_instance
    · cases r <;> infer_instance
    · cases r with
      | again c =>
        cases r' with
        | again c' => exact ih hr
        | done c' => cases hr
      | done c =>
        cases r' with
        | again c' => cases hr
        | done c' => exact .of_marches (.pure hr fun _ h => h)
    · intro s t t' r d hparts hrun
      cases r with
      | again c => exact hparts.clauses inner hrun
      | done c =>
        cases hrun
        exact hparts

/-- Both walks get through the clauses, or the first abandons the switch in one of them. -/
theorem splits_clausesUntilBrace (value value' : Nat) (type type' : ValueType) :
    Splits k b o (clausesUntilBrace inner value type) (clausesUntilBrace inner value' type')
      Clauses.Alike (fun d j => o j ∨ d.test = some j) := by
  rw [clausesUntilBrace_eq, clausesUntilBrace_eq]
  refine .after_blind (fun b n => .iterate (fun _ => inferInstance) _ _)
    (fun n => .iterate (fun _ => inferInstance) _ _) fun n => ?_
  exact (splits_clauses inner hinner ⟨rfl, rfl⟩ value value' type type' _).opens fun _ => .inl

end Inner

/-! ### The end of a switch -/

/-- The closing brace of a switch. -/
def closeSwitch (stop : Nat) (clauses : Clauses) : Walk Unit := do
  skip
  pendingTest clauses.test stop
  defaultJump clauses.default
  bind stop

theorem switchClauses_eq (inner : Walk Unit) (value : Nat) (type : ValueType) (stop : Nat) :
    switchClauses inner value type stop =
      clausesUntilBrace inner value type >>= closeSwitch stop := rfl

instance [g.Within .loud] (clauses : Clauses) : Respects g b (closeSwitch stop clauses) := by
  unfold closeSwitch
  infer_instance

instance (start : Option Nat) : Still .declare (defaultJump start) := by
  unfold defaultJump
  cases start <;> infer_instance

instance (start : Option Nat) : Respects .plain b (defaultJump start) := by
  unfold defaultJump
  cases start <;> infer_instance

theorem marches_closeSwitch (h : c.Alike c') (stop stop' : Nat) :
    Marches k false b (fun j => o j ∨ c'.test = some j) (closeSwitch stop c) (closeSwitch stop' c')
      (fun _ _ => True) (fun _ j => o j ∧ j ≠ stop') := by
  unfold closeSwitch
  refine .bind_blind fun _ => .bind (marches_pendingTest h.test stop stop') fun _ _ _ => ?_
  refine .bind_still fun _ _ => (Marches.bindTarget stop stop').mono (fun _ _ h => h) ?_
  rintro _ j ⟨⟨hj | hj, hne⟩, hstop⟩
  · exact ⟨hj, hstop⟩
  · exact absurd hj hne

theorem Parts.bindTarget {id n : Nat} (h : Parts k o n s t) (hrun : bind id t = .ok d t') :
    Parts k (fun j => o j ∧ j ≠ id) n s t' := by
  cases state_of_bind h.level.second hrun
  exact h.bound id

theorem Parts.pendingTest {test : Option Nat} {next n : Nat} (h : Parts k o n s t)
    (hrun : Walk.pendingTest test next t = .ok d t') :
    Parts k (fun j => o j ∧ test ≠ some j) n s t' := by
  cases test with
  | none =>
    cases hrun
    exact h.mono fun _ hid => ⟨hid, nofun⟩
  | some id =>
    obtain ⟨_, t₁, ht₁, hrun⟩ := bind_eq_ok.1 hrun
    refine ((h.plain ht₁).bindTarget hrun).mono ?_
    rintro j ⟨hj, hne⟩
    exact ⟨hj, fun h => hne (Option.some.inj h).symm⟩

theorem Parts.closeSwitch {n : Nat} (h : Parts k (fun j => o j ∨ c.test = some j) n s t)
    (hrun : Walk.closeSwitch stop c t = .ok d t') :
    Parts k (fun j => o j ∧ j ≠ stop) n s t' ∧ t'.pos = t.pos + 1 := by
  obtain ⟨_, t₁, ht₁, hrun⟩ := bind_eq_ok.1 hrun
  have h₁ := h.plain ht₁
  -- Behind the brace no token is taken.
  have rest : Still .emit (do
      Walk.pendingTest c.test stop
      defaultJump c.default
      bind stop) := inferInstance
  have hpos := (rest.stays h₁.level.second hrun).1
  obtain ⟨_, t₂, ht₂, hrun⟩ := bind_eq_ok.1 hrun
  obtain ⟨_, t₃, ht₃, hrun⟩ := bind_eq_ok.1 hrun
  refine ⟨(((h₁.pendingTest ht₂).plain ht₃).bindTarget hrun).mono ?_, ?_⟩
  · rintro j ⟨⟨hj | hj, hne⟩, hstop⟩
    · exact ⟨hj, hstop⟩
    · exact absurd hj hne
  · rw [hpos]
    cases ht₁
    rfl

/-- A token that has been reached is not behind all tokens. -/
theorem Reaches.nested {v : Pairs} {cs' : List Kind} (h : Reaches v cs t cs' t')
    (hlt : t'.pos < t.tokens.size) : Nested v t.tokens cs t.pos cs' t'.pos := by
  rcases h with h | ⟨-, hle⟩
  · exact h
  · omega

/-- The first walk has abandoned a switch in the state `s`, between two braces. The second
    has gone from `t` to `t'`, which is behind the second brace. -/
structure Closes (k : Mode) (o : Nat → Prop) (cs : List Kind) (t s t' : State) : Prop where
  parts : Parts k o t'.pos s t'
  before : Nested .braces t.tokens cs t.pos [.closeBrace] s.pos
  after : ∃ last, Nested .braces t.tokens [] s.pos [] last ∧
    t.tokens[last]?.map Token.kind = some .closeBrace ∧ t'.pos = last + 1

section Inner

variable (inner : Walk Unit) [∀ b, Respects .any b inner] [Advances inner]
  [∀ cs, Nests .braces none cs cs inner] (hinner : ∀ k b o, InStep k b o inner inner o)
include hinner

theorem switchClauses_cases {value value' : Nat} {type type' : ValueType} {stop' : Nat}
    (habreast : Abreast k o s t) (hknown : Known k (switchClauses inner value type stop s) t)
    (hrun : switchClauses inner value' type' stop' t = .ok d t') (hlog : t'.log.hasErrors = false) :
    (∃ s', switchClauses inner value type stop s = .ok () s' ∧
      Abreast k (fun j => o j ∧ j ≠ stop') s' t') ∨
    ∃ s', switchClauses inner value type stop s = .error .abandoned s' ∧
      Closes k (fun j => o j ∧ j ≠ stop') [.closeBrace] t s' t' := by
  rw [switchClauses_eq] at hknown hrun ⊢
  obtain ⟨c', t₁, ht₁, hrun⟩ := bind_eq_ok.1 hrun
  have close : Respects .any 0 (closeSwitch stop' c') := inferInstance
  have hlog₁ := hasErrors_eq_false_mono (close.ok (Nat.zero_le _) hrun).log hlog
  have hahead := clausesUntilBrace_eq_ok inner ht₁
  have clauses : Respects .any 0 (clausesUntilBrace inner value' type') := inferInstance
  have hkeeps := clauses.ok (Nat.zero_le _) ht₁
  rcases (splits_clausesUntilBrace inner hinner value value' type type').run
    (Nat.zero_le s.pos) habreast
      hknown.first ht₁ hlog₁ with
    ⟨c, s₁, hs₁, hc, habreast₁⟩ | ⟨s₁, hs₁, hbefore, hafter, hparts⟩
  -- Both got through the clauses,
  · rw [bind_of_ok hs₁] at hknown ⊢
    rcases (marches_closeSwitch hc stop stop').ok (Nat.zero_le s₁.pos) habreast₁
      (hknown.keeps habreast.second hkeeps) hrun hlog with ⟨h, -⟩ | ⟨_, s', hs', -, habreast'⟩
    · cases h
    · exact .inl ⟨s', hs', habreast'⟩
  -- or the first was abandoned among them and resumes behind the brace.
  · obtain ⟨hparts', hpos⟩ := hparts.closeSwitch hrun
    obtain ⟨u, hu, hkind⟩ := State.Ahead.token hahead
    have htokens : s₁.tokens = t.tokens := by
      rw [← hkeeps.tokens, hparts.level.tokens]
    have hlt : t₁.pos < t.tokens.size := by
      rw [← hkeeps.tokens]
      exact (Array.getElem?_eq_some_iff.1 hu).1
    refine .inr ⟨s₁, bind_of_error hs₁, hpos ▸ hparts', ?_, t₁.pos, ?_, ?_, hpos⟩
    · exact (hbefore.nested (Nat.lt_of_le_of_lt hparts.le hlt)).append [.closeBrace]
    · rw [← htokens]
      exact hafter.nested (htokens.symm ▸ hlt)
    · rw [← hkeeps.tokens, hu, Option.map_some, hkind]

end Inner

/-! ### The start of a switch -/

theorem storeSwitched_of_declare {value : Nat} {type : ValueType} (hpass : s.pass = .declare) :
    storeSwitched value type s = .ok () s := by
  unfold storeSwitched
  rw [emitting_bind_declare hpass]
  rfl

theorem recalled_storeSwitched {value : Nat} {type : ValueType} (hpass : t.pass = .emit)
    (hrun : storeSwitched value type t = .ok d t') : t'.recalled = t.recalled := by
  unfold storeSwitched at hrun
  rw [emitting_bind_emit hpass, if_pos rfl] at hrun
  obtain ⟨_, t₁, ht₁, hrun⟩ := bind_eq_ok.1 hrun
  have rest : Respects .plain 0 (do
      let pop ← opcodeFor type .pop
      emit pop [← slot value]) := inferInstance
  obtain ⟨-, ht₁⟩ := ensure_bind_eq_ok ht₁
  cases ht₁
  exact ((rest.ok (Nat.zero_le _) hrun).plain (Nat.le_refl _)).2.1

theorem marches_storeSwitched (value value' : Nat) (type type' : ValueType) :
    InStep k b o (storeSwitched value type) (storeSwitched value' type') o where
  run {s t} _ habreast _ := by
    have still : Still .emit (storeSwitched value' type') := inferInstance
    have any : Respects .any t.pos (storeSwitched value' type') := inferInstance
    refine ⟨fun {d t'} hrun hlog => ?_, habreast.accounted⟩
    have hpos := (still.stays habreast.second hrun).1
    have habreast' : Abreast k o { s with pos := t'.pos } t' := by
      have hsame := recalled_storeSwitched habreast.second hrun
      have hparts : Parts k o 0 s t' := (Parts.of_abreast habreast).keeps
        (any.ok (Nat.le_refl _) hrun) (Nat.le_refl _) (.inl ⟨hsame, fun _ h => h⟩)
      exact hparts.abreast fun hk => hsame.trans (habreast.close hk).records
    refine .inr ⟨(), s, storeSwitched_of_declare habreast.first, trivial, ?_⟩
    rwa [hpos, habreast.pos] at habreast'

/-- A switch up to its opening brace: where it ends, and what it tests. -/
def switchHead : Walk (Nat × ValueType × Nat) := do
  requireFunction "switch statements"
  let index ← position
  skip
  let stop ← target index .stop
  let type ← switchedValue
  let value ← internalLocal index .value "$switch" type
  storeSwitched value type
  expectMark .openBrace
  return (stop, type, value)

theorem switchStatement_eq (inner : Walk Unit) : switchStatement inner = switchHead >>= fun p =>
    inLoop p.1 none none (switchClauses inner p.2.2 p.2.1 p.1) := by
  unfold switchStatement switchHead
  simp only [bind_assoc, pure_bind]

instance [g.Within .loud] : Respects g b switchHead := by
  unfold switchHead
  infer_instance

instance : Nests .braces (some .kwSwitch) cs (.closeBrace :: cs) switchHead := by
  unfold switchHead
  infer_instance

theorem marches_switchHead : Marches k false b o switchHead switchHead (fun _ _ => True)
    (fun q j => o j ∨ j = q.1) := by
  unfold switchHead
  refine .requireFunction _ (.header fun index => ?_)
  refine .target (Nat.lt_succ_self index) fun stop stop' => ?_
  refine .bind_plain agrees_switchedValue fun type type' _ => ?_
  refine .internalLocal (Nat.lt_succ_self index) fun value value' => ?_
  refine .bind (marches_storeSwitched value value' type type') fun _ _ _ => .bind_blind fun _ => ?_
  exact .pure trivial fun _ h => h

/-- Inside a switch. -/
def State.inSwitch (stop : Nat) (s : State) : State :=
  { s with loops := ⟨stop, none, none, s.regions⟩ :: s.loops }

theorem apart_inSwitch (stop : Nat) (s : State) : Apart s (s.inSwitch stop) := .places ..

theorem control_leave {s₁ : State} (h : s₁.control = (s.inSwitch stop).control) :
    ({ s₁ with loops := s₁.loops.tail } : State).control = s.control := by
  simp_all [State.control, State.inSwitch]

theorem Abreast.inSwitch (h : Abreast k o s t) (stop stop' : Nat) :
    Abreast k o (s.inSwitch stop) (t.inSwitch stop') := by
  refine h.apart (apart_inSwitch stop s) (apart_inSwitch stop' t) ?_ h.inside
  refine ⟨h.alike.function, h.alike.regions, ?_, h.alike.scope⟩
  simp only [State.inSwitch, List.map_cons, LoopFrame.shape, h.alike.regions]
  exact congrArg _ h.alike.shapes

section Inner

variable (inner : Walk Unit) [∀ b, Respects .any b inner] [Advances inner]
  [∀ cs, Nests .braces none cs cs inner] (hinner : ∀ k b o, InStep k b o inner inner o)
include hinner

/-- Both walks get through a switch, or the first abandons it between its braces. -/
theorem switchStatement_cases (habreast : Abreast k o s t) (hahead : t.Ahead (some .kwSwitch))
    (hknown : Known k (switchStatement inner s) t) (hrun : switchStatement inner t = .ok d t')
    (hlog : t'.log.hasErrors = false) :
    (∃ s', switchStatement inner s = .ok () s' ∧ Abreast k o s' t') ∨
    ∃ s', switchStatement inner s = .error .abandoned s' ∧ Closes k o [] t s' t' := by
  rw [switchStatement_eq] at hknown hrun ⊢
  obtain ⟨q, t₁, ht₁, hrun⟩ := bind_eq_ok.1 hrun
  have rest : Respects .any 0 (inLoop q.1 none none (switchClauses inner q.2.2 q.2.1 q.1)) :=
    inferInstance
  have head : Respects .any 0 switchHead := inferInstance
  have nests : Nests .braces (some .kwSwitch) [] [.closeBrace] switchHead := inferInstance
  have hkeeps := head.ok (Nat.zero_le _) ht₁
  have hlog₁ := hasErrors_eq_false_mono (rest.ok (Nat.zero_le _) hrun).log hlog
  have hopens := nests.ok habreast.second habreast.faithful hahead ht₁ hlog₁
  rcases (marches_switchHead).ok (Nat.zero_le s.pos) habreast hknown.first ht₁ hlog₁ with
    ⟨h, -⟩ | ⟨p, s₁, hs₁, -, habreast₁⟩
  · cases h
  rw [bind_of_ok hs₁] at hknown ⊢
  obtain ⟨t₂, ht₂, rfl⟩ := (Enclosure.inLoop ..).eq_ok.1 hrun
  have hknown₂ := (hknown.keeps habreast.second hkeeps).enclosed (.inLoop ..)
    (apart_inSwitch q.1 t₁)
  have clauses : ∀ value type stop, Respects .any 0 (switchClauses inner value type stop) :=
    fun _ _ _ => inferInstance
  have hkeeps₂ := (clauses ..).ok (Nat.zero_le _) ht₂
  have hcontrol' := control_leave hkeeps₂.control
  -- Back in the surroundings of the switch.
  have hopen : ∀ id, (o id ∨ id = q.1) ∧ id ≠ q.1 → o id :=
    fun id h => h.1.elim (fun h => h) fun hid =>
    absurd hid h.2
  rcases switchClauses_cases inner hinner (habreast₁.inSwitch ..) hknown₂ ht₂ hlog with
    ⟨s₂, hs₂, habreast₂⟩ | ⟨s₂, hs₂, hcloses⟩
  · have hcontrol := control_leave ((clauses ..).ok (Nat.zero_le _) hs₂).control
    refine .inl ⟨_, (Enclosure.inLoop ..).eq_ok.2 ⟨s₂, hs₂, rfl⟩, ?_⟩
    exact (habreast₂.mono hopen).apart (.places ..) (.places ..)
      (habreast₁.alike.control hcontrol hcontrol') habreast₂.inside
  · have hcontrol := control_leave ((clauses ..).error (Nat.zero_le _) hs₂).control
    obtain ⟨last, hlast, hbrace, hpos⟩ := hcloses.after
    have hsize : last < t.tokens.size := by
      obtain ⟨u, hu, -⟩ := Option.map_eq_some_iff.1 hbrace
      exact hkeeps.tokens ▸ (Array.getElem?_eq_some_iff.1 hu).1
    have hle : t₁.pos ≤ last := Nat.le_trans hcloses.before.le hlast.le
    refine .inr ⟨_, (Enclosure.inLoop ..).eq_error.2 ⟨s₂, hs₂, rfl⟩, ?_, ?_, last, ?_, ?_, hpos⟩
    · exact (hcloses.parts.mono hopen).apart (.places ..) (.places ..)
        (habreast₁.alike.control hcontrol hcontrol') hcloses.parts.inside
    · have hbefore := hcloses.before
      rw [show (t₁.inSwitch q.1).tokens = t.tokens from hkeeps.tokens] at hbefore
      exact (hopens.nested (Nat.lt_of_le_of_lt hle hsize)).trans hbefore
    · rw [← hkeeps.tokens]
      exact hlast
    · rw [← hkeeps.tokens]
      exact hbrace

end Inner

end StateScript.Walk
