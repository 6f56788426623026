import StateScript.Proofs.Walk.Unit

/-! # What the findings say about the outcome

  A compilation gives no object without a finding that says why, and it gives none that a
  finding speaks against. The reason is in how its run ends: a fatal end has reported
  itself, a statement that is abandoned is caught, and a run that goes to its end looks at
  the log before it links. By the same token a fatal finding is the last one.
-/

namespace StateScript

namespace Walk

variable {α β : Type} {s : State} {x : Walk α}

theorem FatalLast.hasErrors {log : Log} (h : FatalLast (some .fatal) log) :
    log.hasErrors = true := by
  obtain ⟨items, d, hitems, hlevel, -⟩ := h.last rfl
  have hd : d ∈ log.items := by simp [hitems]
  exact List.any_eq_true.2 ⟨d, hd, by rw [hlevel]; rfl⟩

/-- Nothing stands behind a fatal finding, and none stands in front of it. -/
theorem FatalLast.unique {e : Option Stop} {log : Log} (h : FatalLast e log)
    {before after : List Diagnostic} {d : Diagnostic} (hitems : log.items = before ++ d :: after)
    (hd : d.level = .fatal) : after = [] ∧ ∀ x ∈ before, x.level ≠ .fatal := by
  by_cases he : e = some .fatal
  · obtain ⟨items, last, hlast, -, hothers⟩ := h.last he
    -- the finding is not among the earlier ones, so it is the last
    have hafter : after = [] := by
      apply Decidable.byContradiction
      intro hne
      have hdropped : (before ++ d :: after).dropLast = items := by
        rw [← hitems, hlast, List.dropLast_concat]
      rw [List.dropLast_append_of_ne_nil (List.cons_ne_nil _ _), List.dropLast_cons_of_ne_nil hne]
        at hdropped
      exact hothers d (by simp [← hdropped]) hd
    subst hafter
    have hbefore : before = items := by
      have hsame := hitems.symm.trans hlast
      exact (List.append_inj' hsame rfl).1
    exact ⟨rfl, hbefore ▸ hothers⟩
  · have habsent := hasFatal_eq_false.1 (h.absent he)
    exact absurd hd (habsent d (by simp [hitems]))

/-! ### What is never abandoned -/

/-- A walk that catches what it abandons. -/
structure Caught (x : Walk α) : Prop where
  run : ∀ s s', x s ≠ .error .abandoned s'

theorem Caught.bind {f : α → Walk β} (hx : Caught x) (hf : ∀ a, Caught (f a)) :
    Caught (x >>= f) where
  run s s' h := by
    rcases bind_eq_error.1 h with h | ⟨a, s₁, -, h⟩
    · exact hx.run s s' h
    · exact (hf a).run s₁ s' h

theorem Caught.pure (a : α) : Caught (pure a : Walk α) := ⟨fun _ _ h => by cases h⟩

theorem Caught.view (f : State → α) : Caught (view f) := ⟨fun _ _ h => by cases h⟩

theorem Caught.ensure (holds : State → Bool) : Caught (ensure holds) where
  run s s' h := by
    rcases ensure_cases holds s with ⟨hrun, -⟩ | hrun <;> cases h.symm.trans hrun

theorem Caught.broken : Caught (throw .broken : Walk α) := ⟨fun _ _ h => by cases h⟩

theorem caught_guarded (x : Walk Unit) : Caught (guarded x) where
  run s s' h := by
    cases hrun : x s with
    | ok a s₁ =>
      rw [guarded_of_ok hrun] at h
      cases h
    | error e s₁ =>
      by_cases he : e = .abandoned
      -- A guard catches this end and recovers.
      · subst he
        rw [guarded_of_abandoned hrun] at h
        split at h <;> cases h
      · rw [guarded_of_error hrun he] at h
        cases h
        exact he rfl

theorem caught_emit (opcode : Opcode) (operands : List Operand) :
    Caught (emit opcode operands) := by
  unfold emit
  refine .bind (.view _) fun isEmitting => ?_
  cases isEmitting with
  | true => exact .bind (.ensure _) fun _ => ⟨fun _ _ h => by cases h⟩
  | false => exact .pure ()

theorem caught_reportAt (index : Nat) (code : Code) (level : StateScript.Level) (message : String) :
    Caught (reportAt index code level message) where
  run s s' h := by
    unfold reportAt at h
    dsimp only at h
    split at h <;> cases h

theorem caught_statements : Caught statements := by
  have turn : Caught (do
      if ← atEnd then return Turn.done ()
      else
        statement
        return Turn.again () : Walk (Turn Unit Unit)) := by
    apply Caught.bind (.view _)
    intro isOver
    cases isOver with
    | true => exact .pure _
    | false =>
      refine Caught.bind ?_ fun _ => .pure _
      unfold statement
      exact .bind (.view _) fun n => caught_guarded _
  unfold statements loop
  exact loop_induction (P := Caught) (fun _ => .bind (.view _)) .broken .pure
    (fun _ _ => turn.bind) _

/-! ### How a unit ends -/

/-- The end of a run that leaves fatal findings last and nothing abandoned. -/
structure Ends (r : EStateM.Result Stop State α) : Prop where
  log : FatalLast (ending r) (final r).log
  caught : ending r ≠ some .abandoned

theorem Ends.bind {f : α → Walk β} (hx : Ends (x s))
    (hf : ∀ a s₁, s₁.log.hasFatal = false → Ends (f a s₁)) : Ends ((x >>= f) s) := by
  cases hrun : x s with
  | ok a s₁ =>
    rw [bind_of_ok hrun]
    rw [hrun] at hx
    exact hf a s₁ (hx.log.absent nofun)
  | error e s₁ =>
    rw [bind_of_error hrun]
    rw [hrun] at hx
    exact ⟨hx.log, hx.caught⟩

/-- A walk that keeps what all rules keep, and abandons nothing. -/
theorem Ends.of_caught [hx : Respects .any 0 x] (hcaught : Caught x) (hs : s.log.hasFatal = false) :
    Ends (x s) where
  log := (hx.run s (Nat.zero_le _)).fatal hs
  caught := by
    intro h
    cases hrun : x s with
    | ok a s₁ =>
      rw [hrun] at h
      cases h
    | error e s₁ =>
      rw [hrun] at h
      cases h
      exact hcaught.run s s₁ hrun

theorem Ends.view (f : State → α) (hs : s.log.hasFatal = false) : Ends (view f s) :=
  ⟨.ended hs, nofun⟩

theorem ends_checkDefaultState (hs : s.log.hasFatal = false) : Ends (checkDefaultState s) := by
  unfold checkDefaultState
  refine (Ends.view _ hs).bind fun state s₁ hs₁ => (Ends.view _ hs₁).bind fun isLibrary s₂ hs₂ => ?_
  split
  · exact (Ends.view _ hs₂).bind fun count s₃ hs₃ => .of_caught (caught_reportAt ..) hs₃
  · exact .of_caught (.pure _) hs₂

theorem ends_link (defines : List Define) (hs : s.log.hasFatal = false) :
    Ends (link defines s) := by
  unfold link
  refine (Ends.view _ hs).bind fun table s₁ hs₁ => ?_
  refine (@Ends.of_caught _ _ _ (.ensure fun _ _ => rfl) (.ensure _) hs₁).bind fun _ s₂ hs₂ => ?_
  cases (layout table).relocateCode table with
  | error id =>
    obtain ⟨log, -, hfatal, -, hrun⟩ := fatal_eq (α := Object) .internalError
      s!"jump target {id} was never bound" s₂
    show Ends (fatal .internalError s!"jump target {id} was never bound" s₂)
    rw [hrun]
    exact ⟨hfatal hs₂, nofun⟩
  | ok instructions => exact .view _ hs₂

theorem ends_walkOver (pass : Pass) (hs : s.log.hasFatal = false) : Ends (walkOver pass s) := by
  have loud : Respects .loud 0 statements := inferInstance
  have any : Respects .any 0 statements := loud.weaken
  rw [walkOver_run]
  exact Ends.of_caught caught_statements (s := s.begin pass) hs

theorem ends_unit (defines : List Define) (hs : s.log.hasFatal = false) :
    Ends (unit defines s) := by
  unfold unit
  refine (ends_walkOver .declare hs).bind fun _ s₁ hs₁ => ?_
  refine (ends_walkOver .emit hs₁).bind fun _ s₂ hs₂ => ?_
  refine (Ends.of_caught (caught_emit _ _) hs₂).bind fun _ s₃ hs₃ => ?_
  refine (ends_checkDefaultState hs₃).bind fun _ s₄ hs₄ => ?_
  refine (Ends.view _ hs₄).bind fun hasErrors s₅ hs₅ => ?_
  split
  · exact .of_caught (.pure _) hs₅
  · exact (ends_link _ hs₅).bind fun o s₆ hs₆ => .of_caught (.pure _) hs₆

/-- A unit is not linked only if the log has an error. -/
theorem hasErrors_of_unit {defines : List Define} {s' : State} (h : unit defines s = .ok none s') :
    s'.log.hasErrors = true := by
  unfold unit at h
  obtain ⟨_, s₁, -, h⟩ := bind_eq_ok.1 h
  obtain ⟨_, s₂, -, h⟩ := bind_eq_ok.1 h
  obtain ⟨_, s₃, -, h⟩ := bind_eq_ok.1 h
  obtain ⟨_, s₄, -, h⟩ := bind_eq_ok.1 h
  rw [view_bind] at h
  split at h
  · next herrors =>
    cases h
    exact herrors
  · obtain ⟨o, s₅, -, h⟩ := bind_eq_ok.1 h
    cases h

end Walk

namespace Compilation

open Walk

/-- The log of a compilation has a fatal finding at its end or nowhere, and where there is no
    object, it has an error. -/
theorem log_ofTokens (options : Options) (tokens : List Token) :
    (∃ e, FatalLast e (ofTokens options tokens).log) ∧
      ((ofTokens options tokens).object = none →
        (ofTokens options tokens).log.hasErrors = true) := by
  have hends := ends_unit options.defines (s := .initial options.flags tokens) rfl
  have hrun : (unit options.defines).run (.initial options.flags tokens) =
      unit options.defines (.initial options.flags tokens) := rfl
  unfold ofTokens
  rw [hrun]
  cases hunit : unit options.defines (.initial options.flags tokens) with
  | ok o s =>
    rw [hunit] at hends
    cases o with
    | none => exact ⟨⟨none, hends.log⟩, fun _ => hasErrors_of_unit hunit⟩
    | some o => exact ⟨⟨none, hends.log⟩, nofun⟩
  | error e s =>
    rw [hunit] at hends
    cases e with
    | abandoned => exact absurd rfl hends.caught
    | fatal => exact ⟨⟨some .fatal, hends.log⟩, fun _ => hends.log.hasErrors⟩
    -- A walk that broke off is reported as a failure, behind all else.
    | broken =>
      have habsent : s.log.hasFatal = false := hends.log.absent (by intro h; cases h)
      have hfatal : FatalLast (some .fatal) (brokenLog s) := .push_fatal rfl habsent
      exact ⟨⟨some .fatal, hfatal⟩, fun _ => hfatal.hasErrors⟩

/-- An error is one under all switches. -/
theorem hasErrors_pushAll {log : Log} {ds : List Diagnostic} (h : ds.any (·.level.isError) = true) :
    (log.pushAll ds).hasErrors = true := by
  obtain ⟨d, hd, hlevel⟩ := List.any_eq_true.1 h
  have hescalated : (Log.escalate log.flags d.level).isError = true := by
    cases hkind : d.level <;> rw [hkind] at hlevel <;> first | rfl | cases hlevel
  unfold Log.hasErrors
  rw [Log.items_pushAll]
  apply List.any_eq_true.2
  exact ⟨_, List.mem_append_right _ (List.mem_map.2 ⟨d, hd, rfl⟩), hescalated⟩

theorem hasErrors_eq_false {log : Log} :
    log.hasErrors = false ↔ ∀ d ∈ log.items, d.level ≠ .error ∧ d.level ≠ .fatal := by
  have heach : ∀ d : Diagnostic, d.level.isError = false ↔ d.level ≠ .error ∧ d.level ≠ .fatal := by
    intro d
    cases d.level <;> simp [Level.isError]
  unfold Log.hasErrors
  rw [List.any_eq_false]
  simp only [Bool.not_eq_true, heach]

/-- The findings decide the outcome: a script gives an object exactly if nothing that was found
    about it is an error, and nothing follows a fatal finding. -/
theorem findings_decide_outcome (options : Options) (source file : String) (tokens : List Token) :
    ((ofSource options source file).object.isSome = true ↔
      ∀ d ∈ (ofSource options source file).log.items, d.level ≠ .error ∧ d.level ≠ .fatal) ∧
    ∀ before d after, (ofTokens options tokens).log.items = before ++ d :: after →
      d.level = .fatal → after = [] ∧ ∀ x ∈ before, x.level ≠ .fatal := by
  constructor
  · rw [← hasErrors_eq_false]
    unfold ofSource
    dsimp only
    split
    · next herrors => simp [herrors]
    · next herrors =>
      simp only [Bool.not_eq_true] at herrors
      simp only [herrors, iff_true]
      -- without an object the compiled tokens would have brought an error
      apply Decidable.byContradiction
      intro hnone
      have hobject := Option.not_isSome_iff_eq_none.1 hnone
      have hcompiled := (log_ofTokens _ _).2 hobject
      rw [hasErrors_pushAll hcompiled] at herrors
      cases herrors
  · intro before d after hitems hd
    obtain ⟨e, hlast⟩ := (log_ofTokens options tokens).1
    exact hlast.unique hitems hd

end Compilation

end StateScript
