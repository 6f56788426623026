import StateScript.Proofs.Outcome
import StateScript.Proofs.Walk.StatementSafety

/-! # Every statement gets the walk on

  A statement that is entered in front of a token takes at least one, whether it is compiled
  or abandoned, unless the compilation is over; and the walk never gets past the last token.
  So both walks come to an end, with none of their budgets used up.

  Statements are entered one after the other by the walk over a script, and inside of others
  by the rules that take the parameter `inner`. The run of a rule gets to `inner` in a state if
  what `inner` does in that state, and in that state alone, can break off the run.
-/

namespace StateScript.Walk

variable {α : Type} {flags : Flags} {tokens : List Token} {c : Nat} {s : State}

/-! ### Where statements are entered -/

/-- A state between two statements that stand outside of all others. -/
inductive Between (flags : Flags) (tokens : List Token) : State → Prop
  | first : Between flags tokens ((State.initial flags tokens).begin .declare)
  | second {s : State} (h : walkOver .declare (.initial flags tokens) = .ok () s) :
      Between flags tokens (s.begin .emit)
  | next {s s' : State} (before : Between flags tokens s) (ahead : s.pos < tokens.length)
      (h : statement s = .ok () s') : Between flags tokens s'

/-- The run of a rule from `s` gets to what is nested in it in the state `t`. -/
def Calls (rule : Walk Unit → Walk Unit) (inner : Walk Unit) (s t : State) : Prop :=
  ∃ other : Walk Unit, (∀ u, u ≠ t → other u = inner u) ∧ ending (rule other s) = some .broken

/-- The states in which statements are entered that may be nested `n` deep. -/
inductive Entered (flags : Flags) (tokens : List Token) : Nat → State → Prop
  | outer {s : State} (between : Between flags tokens s) (ahead : s.pos < tokens.length) :
      Entered flags tokens (tokens.length + 1) s
  | inner {n : Nat} {s t : State} (outer : Entered flags tokens (n + 1) s)
      (calls : Calls statementWith (guarded (statementUpTo n)) s t) : Entered flags tokens n t

/-! ### What holds there -/

theorem State.Sane.begin (h : s.Sane c) (pass : Pass) : (s.begin pass).Sane c := by
  have hglobal : globalScope < s.table.size := Nat.lt_of_lt_of_le (by decide) h.roots
  exact
    { h with
      pos := Nat.zero_le _
      scope := hglobal
      function := hglobal
      counters := fun _ hframe => by cases hframe
      visible := fun _ hblock => by cases hblock }

theorem sane_initial (flags : Flags) (tokens : List Token) :
    (State.initial flags tokens).Sane tokens.length := by
  have hglobal : globalScope < initialTable.size := by decide
  exact
    { count := List.size_toArray
      pos := Nat.zero_le _
      table := wellFormed_initialTable
      roots := Nat.le_of_eq size_initialTable.symm
      scope := hglobal
      function := hglobal
      declared := fun _ hd => by cases hd
      counters := fun _ hframe => by cases hframe
      visible := fun _ hblock => by cases hblock
      engine := fun _ hid => by cases hid
      editor := fun _ hid => by cases hid }

/-- A walk that abandons nothing ends well, or the compilation is over. -/
theorem Fine.ends {b : Nat} {x : Walk α} {q : α → State → Prop} (h : Fine c b s q (x s))
    (hx : Caught x) :
    (∃ s', x s = .error .fatal s') ∨ ∃ a s', x s = .ok a s' ∧ s'.Sane c ∧ q a s' := by
  generalize hr : x s = r at h
  cases h with
  | ok sane onward grows post => exact .inr ⟨_, _, rfl, sane, post⟩
  | abandoned sane start grows => exact absurd hr (hx.run _ _)
  | fatal => exact .inl ⟨_, rfl⟩

/-- A walk over a script ends at its last token, or the compilation is over. -/
theorem State.Sane.walkOver (h : s.Sane c) (pass : Pass) :
    (∃ s', walkOver pass s = .error .fatal s') ∨
      ∃ s', walkOver pass s = .ok () s' ∧ s'.Sane c ∧ s'.pos = c := by
  have hs : Starts c 0 0 [] (s.begin pass) := ⟨h.begin pass, Nat.zero_le _, Nat.zero_le _, by simp⟩
  have hrun : Fine c 0 (s.begin pass) (fun _ s' => s'.pos = c) (statements (s.begin pass)) := by
    unfold statements
    refine .loop hs (fun _ u hu => ?_) ()
    unfold atEnd
    rw [view_bind]
    by_cases hover : u.tokens.size ≤ u.pos
    -- Past the last token the loop ends.
    · rw [if_pos (decide_eq_true hover)]
      have hend : u.pos = c := Nat.le_antisymm hu.sane.pos (hu.sane.count ▸ hover)
      exact .ok hu.sane (Nat.le_refl _) (Nat.le_refl _) ⟨fun _ h => (by cases h), fun _ _ => hend⟩
    -- Each turn before takes a token.
    · rw [if_neg (mt of_decide_eq_true hover)]
      have hahead : u.pos + 1 ≤ c := hu.sane.count ▸ Nat.lt_of_not_le hover
      have takes : Takes c 0 1 [] statement := inferInstance
      refine (takes.run u { hu with ahead := hahead }).bind fun _ u₁ _ sane _ _ took => ?_
      exact .ok sane (Nat.le_refl _) (Nat.le_refl _) ⟨fun _ _ => took, fun _ h => (by cases h)⟩
  rw [walkOver_run]
  rcases hrun.ends caught_statements with hfatal | ⟨_, s', hs', sane, hpos⟩
  · exact .inl hfatal
  · exact .inr ⟨s', hs', sane, hpos⟩

/-- A sane state in front of a token, where a budget of `n` levels covers the tokens ahead. -/
structure State.Fit (c n : Nat) (s : State) : Prop where
  sane : s.Sane c
  ahead : s.pos < c
  budget : c + 1 ≤ n + s.pos

/-- A guarded statement gets on, or the compilation is over. -/
theorem State.Fit.guarded {n : Nat} (h : s.Fit c n) :
    (∃ s', guarded (statementUpTo n) s = .error .fatal s') ∨
      ∃ s', guarded (statementUpTo n) s = .ok () s' ∧ s'.Sane c ∧ s.pos < s'.pos := by
  have nested := (deeper_statementUpTo n s.pos h.budget).guarded
  have hrun := (nested.takes s.pos (Nat.le_refl _) []).run s
    ⟨h.sane, Nat.le_refl _, h.ahead, by simp⟩
  rcases hrun.ends (caught_guarded _) with hfatal | ⟨_, s', hs', sane, took⟩
  · exact .inl hfatal
  · exact .inr ⟨s', hs', sane, took⟩

theorem statement_run (h : s.Sane c) : statement s = guarded (statementUpTo (c + 1)) s := by
  show Walk.guarded (statementUpTo (s.tokens.size + 1)) s = _
  rw [h.count]

theorem Between.sane (h : Between flags tokens s) : s.Sane tokens.length := by
  induction h with
  | first => exact (sane_initial flags tokens).begin .declare
  | second h =>
    rcases (sane_initial flags tokens).walkOver .declare with ⟨s', hs'⟩ | ⟨s', hs', sane, -⟩
    · cases h.symm.trans hs'
    · cases h.symm.trans hs'
      exact sane.begin .emit
  | @next s s' before ahead h ih =>
    have hfit : s.Fit tokens.length (tokens.length + 1) := ⟨ih, ahead, by omega⟩
    rw [statement_run ih] at h
    rcases hfit.guarded with ⟨s₁, hs₁⟩ | ⟨s₁, hs₁, sane, -⟩
    · cases h.symm.trans hs₁
    · cases h.symm.trans hs₁
      exact sane

/-- Were a statement entered anywhere else, it could behave as it likes there, since all
    that the rules count on is what it does in the states that fit. -/
theorem Entered.fit {n : Nat} {t : State} (h : Entered flags tokens n t) :
    t.Fit tokens.length n := by
  induction h with
  | outer between ahead => exact ⟨between.sane, ahead, by omega⟩
  | @inner n s t outer calls ih =>
    obtain ⟨other, hother, hbroken⟩ := calls
    apply Classical.byContradiction
    -- A rule that meets only states that fit ends well, whatever happens in others.
    intro hunfit
    have deeper : Deeper tokens.length (s.pos + 1) 1 other := by
      refine ⟨fun b hb ids => ⟨fun u hu => ?_⟩⟩
      have hstart := hu.start
      have hbudget : tokens.length + 1 ≤ n + b := by
        have := ih.budget
        omega
      have hfit : u.Fit tokens.length n := ⟨hu.sane, hu.ahead, by omega⟩
      have hne : u ≠ t := fun h => hunfit (h ▸ hfit)
      have nested := (deeper_statementUpTo n b hbudget).guarded
      rw [hother u hne]
      exact (nested.takes b (Nat.le_refl _) ids).run u hu
    have rule : Takes tokens.length s.pos 1 [] (statementWith other) := inferInstance
    have hrun := rule.run s ⟨ih.sane, Nat.le_refl _, ih.ahead, by simp⟩
    generalize statementWith other s = r at hrun hbroken
    cases hrun <;> cases hbroken

/-- **Progress.** A statement that is entered stands in front of a token. It ends the
    compilation, or the walk gets on by a token at least and by no more than there are. So
    both walks over a script end at its last token, or the compilation is over before. -/
theorem statements_get_on (flags : Flags) (tokens : List Token) :
    (∀ n t, Entered flags tokens n t → t.pos < tokens.length ∧
      ((∃ t', guarded (statementUpTo n) t = .error .fatal t') ∨
        ∃ t', guarded (statementUpTo n) t = .ok () t' ∧ t.pos < t'.pos ∧ t'.pos ≤ tokens.length)) ∧
    ((∃ s, walkOver .declare (.initial flags tokens) = .error .fatal s) ∨
      ∃ s, walkOver .declare (.initial flags tokens) = .ok () s ∧ s.pos = tokens.length ∧
        ((∃ s', walkOver .emit s = .error .fatal s') ∨
          ∃ s', walkOver .emit s = .ok () s' ∧ s'.pos = tokens.length)) := by
  constructor
  · intro n t h
    refine ⟨h.fit.ahead, ?_⟩
    rcases h.fit.guarded with hfatal | ⟨t', ht', sane, took⟩
    · exact .inl hfatal
    · exact .inr ⟨t', ht', took, sane.pos⟩
  · rcases (sane_initial flags tokens).walkOver .declare with hfatal | ⟨s, hs, sane, hpos⟩
    · exact .inl hfatal
    · refine .inr ⟨s, hs, hpos, ?_⟩
      rcases sane.walkOver .emit with hfatal | ⟨s', hs', -, hpos'⟩
      · exact .inl hfatal
      · exact .inr ⟨s', hs', hpos'⟩

/-- A loop ends early if its first turn does. -/
theorem loop_of_error {β : Type} {turn : α → Walk (Turn α β)} {a : α} {s' : State} {e : Stop}
    (h : turn a s = .error e s') : loop a turn s = .error e s' := by
  show iterate turn (s.tokens.size + 1) a s = _
  exact bind_of_error h

/-- A statement inside of another: `namespace n { ; }`. -/
def spaceAroundNothing : List Token :=
  [mark .kwNamespace, wordOf .identifier "n", mark .openBrace, mark .semicolon,
    mark .closeBrace]

/-- The first walk in front of the inner statement. -/
def insideSpace : State :=
  { (State.initial {} spaceAroundNothing).begin .declare with
    pos := 3, scope := 2, table := initialTable.add (some globalScope) "n" .space }

theorem calls_insideSpace : Calls statementWith (guarded (statementUpTo 5))
    ((State.initial {} spaceAroundNothing).begin .declare) insideSpace := by
  classical
  refine ⟨fun u => if u = insideSpace then .error .broken u else guarded (statementUpTo 5) u,
    fun u hu => if_neg hu, ?_⟩
  generalize hother : (fun u => if u = insideSpace then EStateM.Result.error Stop.broken u
    else guarded (statementUpTo 5) u) = other
  have hcall : other insideSpace = .error .broken insideSpace := by
    rw [← hother]
    exact if_pos rfl
  have hturn : blockContents other insideSpace = .error .broken insideSpace := by
    have hstatement : (other >>= fun _ => pure (.again ()) : Walk (Turn Unit Unit)) insideSpace =
        .error .broken insideSpace := bind_of_error hcall
    have hloop : statementsUntil (· == .closeBrace) other insideSpace =
        .error .broken insideSpace := loop_of_error hstatement
    exact bind_of_error hloop
  show ending (protect (fun s => { s with scope := globalScope })
    (blockContents other) insideSpace) =
    some .broken
  rw [(protect_eq _ _ _).1, hturn]
  rfl

theorem statements_get_on_nested : Entered {} spaceAroundNothing 5 insideSpace ∧
    ∃ t', guarded (statementUpTo 5) insideSpace = .ok () t' ∧ 3 < t'.pos ∧ t'.pos ≤ 5 := by
  have hentered : Entered {} spaceAroundNothing 5 insideSpace :=
    .inner (.outer .first (by decide)) calls_insideSpace
  refine ⟨hentered, ?_⟩
  rcases ((statements_get_on {} spaceAroundNothing).1 5 insideSpace hentered).2 with ⟨t', h⟩ | h
  · cases h
  · exact h

end StateScript.Walk
