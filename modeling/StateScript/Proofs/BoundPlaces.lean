import StateScript.Proofs.Walk.Unit

/-! # Places of bound targets

  The second walk binds a target to the end of the code so far, and conversions of arguments
  are put into the middle of code after the fact. They never get in front of a target that is
  bound already: all that is put in behind a binding goes behind the place of the target.
-/

namespace StateScript.Walk

/-- What a walk over the script does to a history, however it ends. -/
theorem Undisturbed.walkOver {s : State} (htells : Tells s.history s.table)
    (h : Undisturbed s.history) (pass : Pass) :
    Tells (final (walkOver pass s)).history (final (walkOver pass s)).table ∧
      Undisturbed (final (walkOver pass s)).history := by
  have loud : Respects .loud 0 statements := inferInstance
  obtain ⟨new, hnew, hcarries⟩ := (loud.run (s.begin pass) (Nat.zero_le _)).history
  rw [walkOver_run, hnew]
  exact ⟨hcarries.tells s.history htells, hcarries.undisturbed s.history rfl htells h⟩

theorem tells_initial (flags : Flags) (tokens : List Token) :
    Tells [] (State.initial flags tokens).table where
  code id := by
    show #[] = initialTable.instructions id
    unfold Table.instructions
    cases hk : initialTable.kind? id with
    | none => rfl
    | some k => rcases kind?_initialTable hk with ⟨-, rfl⟩ | ⟨-, rfl⟩ <;> rfl
  bound id place hbound := by
    obtain ⟨k, hk, hbound⟩ := Option.bind_eq_some_iff.1 hbound
    rcases kind?_initialTable hk with ⟨-, rfl⟩ | ⟨-, rfl⟩ <;> cases hbound

/-- The history of the second walk gives the code of all functions and has all targets that
    are bound. At the moment that a target is bound to a place in a function, that is the
    length of the code so far; and at every later moment just this code stands in front of
    the place. -/
theorem bound_places_stay (flags : Flags) (tokens : List Token) :
    let t := final (walkOver .emit (final (walkOver .declare (.initial flags tokens))))
    Tells t.history t.table ∧
      ∀ later target function place earlier,
        t.history = later ++ .bind target function place :: earlier →
        place = (codeAfter function earlier).size ∧
          ∀ moment, moment <:+ later →
            (codeAfter function (moment ++ .bind target function place :: earlier)).take place =
              codeAfter function earlier := by
  intro t
  have hstart := Undisturbed.walkOver (s := .initial flags tokens)
    (tells_initial flags tokens) trivial .declare
  -- Both walks leave the code in front of bound targets alone.
  obtain ⟨htells, hundisturbed⟩ := hstart.2.walkOver hstart.1 .emit
  refine ⟨htells, fun later target function place earlier h => ?_⟩
  have hlater : Undisturbed (later ++ .bind target function place :: earlier) := h ▸ hundisturbed
  refine ⟨hlater.of_append.1, fun moment hmoment => ?_⟩
  obtain ⟨after, rfl⟩ := hmoment
  rw [List.append_assoc] at hlater
  exact hlater.of_append.take_codeAfter

/-- A call whose first argument is converted, behind a bound target:
    `void g(float a, int b) { if (true) { } g(1, 2); }`. -/
def convertedBehindTarget : List Token :=
  [mark .voidType, wordOf .identifier "g", mark .openParen, mark .floatType,
    wordOf .identifier "a", mark .comma, mark .intType, wordOf .identifier "b",
    mark .closeParen, mark .openBrace, mark .kwIf, mark .openParen,
    wordOf .booleanLiteral "true", mark .closeParen, mark .openBrace, mark .closeBrace,
    wordOf .identifier "g", mark .openParen, wordOf .integerLiteral "1", mark .comma,
    wordOf .integerLiteral "2", mark .closeParen, mark .semicolon, mark .closeBrace]

/-- Where an event puts an instruction, if not at the end. -/
def insertedAt : CodeEvent → Option Nat
  | .put _ place _ => place
  | .bind .. => none

/-- The conversion goes between the two arguments, behind the four instructions in front of
    the target. -/
theorem bound_places_stay_convertedBehindTarget :
    ∃ later earlier, (final (walkOver .emit (final (walkOver .declare
        (.initial { library := true } convertedBehindTarget))))).history =
          later ++ .bind 6 2 4 :: earlier ∧
      later.filterMap insertedAt = [7, 6, 5] ∧
      4 = (codeAfter 2 earlier).size ∧
      ∀ moment, moment <:+ later →
        (codeAfter 2 (moment ++ .bind 6 2 4 :: earlier)).take 4 = codeAfter 2 earlier := by
  let history := (final (walkOver .emit (final (walkOver .declare
    (.initial { library := true } convertedBehindTarget))))).history
  have hhistory : history = history.take 7 ++ .bind 6 2 4 :: history.drop 8 := by decide +kernel
  refine ⟨_, _, hhistory, by decide +kernel, ?_⟩
  exact (bound_places_stay { library := true } convertedBehindTarget).2 _ _ _ _ _ hhistory

end StateScript.Walk
