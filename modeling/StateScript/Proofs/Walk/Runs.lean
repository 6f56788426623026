import StateScript.Proofs.Table
import StateScript.Walk.Unit

/-! # Runs

  How runs end, and what two runs under different switches have in common. Switches decide
  how grave a finding is and whether breakpoints make code. Apart from that a walk does not
  look at them: under two sets of switches it goes the same way, up to the first finding
  that is fatal under one of them and not under the other. From there on only one of the
  two runs is left, and its log keeps that finding.
-/

namespace StateScript

/-- A finding of the log would be graver under these switches. -/
def Log.Offends (flags : Flags) (log : Log) : Prop :=
  ∃ d ∈ log.items, Log.escalate flags d.level ≠ d.level

theorem Log.Offends.mono {flags : Flags} {l l' : Log} (h : l.Offends flags)
    (hl : l.items <+: l'.items) : l'.Offends flags := by
  obtain ⟨d, hd, hlevel⟩ := h
  exact ⟨d, hl.subset hd, hlevel⟩

namespace Walk

/-! ### Ends of runs -/

variable {α β : Type} {s s' s₁ : State} {e : Stop} {x : Walk α} {a : α} {f : α → Walk β} {b : Nat}
  {F G : Flags}

/-- Why a run ended early, if it did. -/
def ending : EStateM.Result Stop State α → Option Stop
  | .ok _ _ => none
  | .error e _ => some e

/-- The state that a run ended in. -/
def final : EStateM.Result Stop State α → State
  | .ok _ s => s
  | .error _ s => s

/-- A run after which the walk goes on: it has succeeded, or its statement is abandoned. -/
def Continues (r : EStateM.Result Stop State α) : Prop :=
  ending r = none ∨ ending r = some .abandoned

theorem continues_ok (a : α) (s : State) : Continues (.ok a s : EStateM.Result Stop State α) :=
  .inl rfl

theorem not_continues_broken (s : State) :
    ¬ Continues (.error .broken s : EStateM.Result Stop State α) := by
  rintro (h | h) <;> cases h

theorem bind_eq_ok {b : β} :
    (x >>= f) s = .ok b s' ↔ ∃ a s₁, x s = .ok a s₁ ∧ f a s₁ = .ok b s' := by
  show EStateM.bind x f s = _ ↔ _
  unfold EStateM.bind
  cases h : x s with
  | ok a s₁ =>
    constructor
    · intro hf
      exact ⟨a, s₁, rfl, hf⟩
    · rintro ⟨_, _, ⟨⟩, hf⟩
      exact hf
  | error e s₁ => simp

theorem bind_eq_error :
    (x >>= f) s = .error e s' ↔
      x s = .error e s' ∨ ∃ a s₁, x s = .ok a s₁ ∧ f a s₁ = .error e s' := by
  show EStateM.bind x f s = _ ↔ _
  unfold EStateM.bind
  cases h : x s with
  | ok a s₁ =>
    constructor
    · intro hf
      exact .inr ⟨a, s₁, rfl, hf⟩
    · rintro (⟨⟨⟩⟩ | ⟨_, _, ⟨⟩, hf⟩)
      exact hf
  | error e s₁ => simp

theorem bind_of_ok (h : x s = .ok a s₁) : (x >>= f) s = f a s₁ := by
  show EStateM.bind x f s = _
  unfold EStateM.bind
  rw [h]

theorem bind_of_error (h : x s = .error e s₁) : (x >>= f) s = .error e s₁ := by
  show EStateM.bind x f s = _
  unfold EStateM.bind
  rw [h]

theorem view_bind (f : State → α) (k : α → Walk β) (s : State) : (view f >>= k) s = k (f s) s := rfl

theorem change_bind (f : State → State) (k : Unit → Walk β) (s : State) :
    (change f >>= k) s = k () (f s) := rfl

theorem position_bind (k : Nat → Walk β) (s : State) : (position >>= k) s = k s.pos s := rfl

theorem emitting_bind_declare {k : Bool → Walk β} (h : s.pass = .declare) :
    (emitting >>= k) s = k false s := by
  show k (s.pass == .emit) s = _
  rw [h]
  rfl

theorem emitting_bind_emit {k : Bool → Walk β} (h : s.pass = .emit) :
    (emitting >>= k) s = k true s := by
  show k (s.pass == .emit) s = _
  rw [h]
  rfl

theorem ensure_of {holds : State → Bool} (h : holds s = true) : ensure holds s = .ok () s := by
  unfold ensure
  rw [if_pos h]

/-- What a walk counts on is there, or the walk is broken. -/
theorem ensure_cases (holds : State → Bool) (s : State) :
    ensure holds s = .ok () s ∧ holds s = true ∨ ensure holds s = .error .broken s := by
  unfold ensure
  cases holds s with
  | true => exact .inl ⟨rfl, rfl⟩
  | false => exact .inr rfl

theorem ensure_bind_eq_ok {holds : State → Bool} {f : Unit → Walk β} {b : β}
    (h : (ensure holds >>= f) s = .ok b s') : holds s = true ∧ f () s = .ok b s' := by
  rcases ensure_cases holds s with ⟨hrun, hholds⟩ | hrun
  · rw [bind_of_ok hrun] at h
    exact ⟨hholds, h⟩
  · rw [bind_of_error hrun] at h
    cases h

theorem ensure_bind_cases (holds : State → Bool) (f : Unit → Walk β) (s : State) :
    (ensure holds >>= f) s = f () s ∨ (ensure holds >>= f) s = .error .broken s := by
  rcases ensure_cases holds s with ⟨hrun, -⟩ | hrun
  · exact .inl (bind_of_ok hrun)
  · exact .inr (bind_of_error hrun)

/-- What turns pass on from what follows them, any number of turns have. -/
theorem iterate_induction {turn : α → Walk (Turn α β)} {P : Walk β → Prop}
    (hbroken : P (throw .broken)) (hpure : ∀ b, P (pure b))
    (hturn : ∀ a (rest : Turn α β → Walk β), (∀ r, P (rest r)) → P (turn a >>= rest)) (n : Nat)
    (a : α) : P (iterate turn n a) := by
  induction n generalizing a with
  | zero => exact hbroken
  | succ n ih =>
    refine hturn a _ fun r => ?_
    cases r with
    | again a => exact ih a
    | done b => exact hpure b

theorem loop_induction {turn : α → Walk (Turn α β)} {P : Walk β → Prop}
    (hcount : ∀ rest : Nat → Walk β, (∀ n, P (rest n)) → P (tokenCount >>= rest))
    (hbroken : P (throw .broken)) (hpure : ∀ b, P (pure b))
    (hturn : ∀ a (rest : Turn α β → Walk β), (∀ r, P (rest r)) → P (turn a >>= rest)) (a : α) :
    P (loop a turn) :=
  hcount _ fun _ => iterate_induction hbroken hpure hturn _ a

theorem State.pass_cases (s : State) : s.pass = .declare ∨ s.pass = .emit := by
  cases s.pass
  · exact .inl rfl
  · exact .inr rfl

/-! ### Pairs of runs -/

/-- The same state under other switches. -/
def State.under (s : State) (flags : Flags) : State :=
  { s with flags, log := { s.log with flags } }

/-- The same outcome, its state under other switches. -/
def under (r : EStateM.Result Stop State α) (flags : Flags) : EStateM.Result Stop State α :=
  match r with
  | .ok a s => .ok a (s.under flags)
  | .error e s => .error e (s.under flags)

/-- Breakpoints make code under both sets of switches or under none, or there are none. -/
def State.Unparted (F G : Flags) (s : State) : Prop :=
  F.debug = G.debug ∨ ∀ t ∈ s.tokens, t.kind ≠ .kwBreakpoint

theorem State.Unparted.of_tokens (h : s.Unparted F G) (htokens : s'.tokens = s.tokens) :
    s'.Unparted F G := by
  unfold State.Unparted
  rw [htokens]
  exact h

/-- Outcomes of two runs, under the switches `F` and under `G`. -/
inductive Parallel (F G : Flags) : EStateM.Result Stop State α → EStateM.Result Stop State α → Prop
  | ok (a : α) (s : State) : s.Unparted F G → Parallel F G (.ok a (s.under F)) (.ok a (s.under G))
  | error (e : Stop) (s : State) :
      s.Unparted F G → Parallel F G (.error e (s.under F)) (.error e (s.under G))
  /-- The first run ended with a finding that the second took more lightly. -/
  | first (s : State) {r : EStateM.Result Stop State α} :
      (final r).log.Offends F → Parallel F G (.error .fatal s) r
  | second (s : State) {r : EStateM.Result Stop State α} :
      (final r).log.Offends G → Parallel F G r (.error .fatal s)

/-- A walk that goes the same way under two sets of switches, from tokens at or after `b`. -/
structure Indifferent (F G : Flags) (b : Nat) (x : Walk α) : Prop where
  onward : ∀ s a s₁, b ≤ s.pos → x s = .ok a s₁ → b ≤ s₁.pos
  logs : ∀ s, b ≤ s.pos → s.log.items <+: (final (x s)).log.items
  run : ∀ s : State, b ≤ s.pos → s.Unparted F G → Parallel F G (x (s.under F)) (x (s.under G))

/-- What a run does that does not look at the switches. -/
theorem Parallel.of_under (hs : s.Unparted F G) (htokens : (final (x s)).tokens = s.tokens)
    (h : ∀ flags, x (s.under flags) = under (x s) flags) :
    Parallel F G (x (s.under F)) (x (s.under G)) := by
  rw [h, h]
  cases hrun : x s with
  | ok a s₁ =>
    rw [hrun] at htokens
    exact .ok a s₁ (hs.of_tokens htokens)
  | error e s₁ =>
    rw [hrun] at htokens
    exact .error e s₁ (hs.of_tokens htokens)

/-- A change of no switch, no token and no finding, which does not go back. -/
theorem Indifferent.change {f : State → State} (hpos : ∀ s, b ≤ s.pos → b ≤ (f s).pos)
    (hlog : ∀ s, (f s).log = s.log) (htokens : ∀ s, (f s).tokens = s.tokens)
    (h : ∀ s flags, f (s.under flags) = (f s).under flags) : Indifferent F G b (change f) where
  onward s a s₁ hs hrun := by
    cases hrun
    exact hpos s hs
  logs s _ := hlog s ▸ List.prefix_rfl
  run s _ hs :=
    .of_under hs (htokens s) fun flags => congrArg (EStateM.Result.ok ()) (h s flags)

theorem Indifferent.bind_of (hx : Indifferent F G b x)
    (hf : ∀ s a s₁, b ≤ s.pos → x s = .ok a s₁ → Indifferent F G b (f a)) :
    Indifferent F G b (x >>= f) := by
  have logs : ∀ s, b ≤ s.pos → (final (x s)).log.items <+: (final ((x >>= f) s)).log.items := by
    intro s hpos
    cases h : x s with
    | ok a s₁ =>
      rw [bind_of_ok h]
      exact (hf s a s₁ hpos h).logs s₁ (hx.onward s a s₁ hpos h)
    | error e s₁ =>
      rw [bind_of_error h]
      exact List.prefix_rfl
  refine ⟨fun s c s₂ hpos h => ?_, fun s hpos => (hx.logs s hpos).trans (logs s hpos),
    fun s hpos hs => ?_⟩
  · obtain ⟨a, s₁, ha, h⟩ := bind_eq_ok.1 h
    exact (hf s a s₁ hpos ha).onward s₁ c s₂ (hx.onward s a s₁ hpos ha) h
  -- The rest is walked only where both got through the first part.
  have hrun := hx.run s hpos hs
  have hlogsF := logs (s.under F) hpos
  have hlogsG := logs (s.under G) hpos
  generalize hF : x (s.under F) = r at hrun hlogsF
  generalize hG : x (s.under G) = r' at hrun hlogsG
  cases hrun with
  | ok a s₁ hs₁ =>
    rw [bind_of_ok hF, bind_of_ok hG]
    exact (hf (s.under F) a _ hpos hF).run s₁ (hx.onward (s.under F) a (s₁.under F) hpos hF) hs₁
  | error e s₁ hs₁ =>
    rw [bind_of_error hF, bind_of_error hG]
    exact .error e s₁ hs₁
  | first s₁ h =>
    rw [bind_of_error hF]
    exact .first s₁ (h.mono hlogsG)
  | second s₁ h =>
    rw [bind_of_error hG]
    exact .second s₁ (h.mono hlogsF)

theorem Indifferent.bind (hx : Indifferent F G b x) (hf : ∀ a, Indifferent F G b (f a)) :
    Indifferent F G b (x >>= f) :=
  hx.bind_of fun _ a _ _ _ => hf a

end Walk

end StateScript
