import StateScript.Walk.Literal

/-! # Spellings of literals

  A number is spelled in decimal digits or, after `0x`, in hexadecimal ones, and a truth value
  as a word. As an operand it is what it spells. A minus sign that is folded into the literal
  gives the operand of the opposite number, which for a number below `2 ^ 31` fits an `int`.
-/

namespace StateScript

variable {cs : List Char} {n : Nat} {t : Token}

open Number

/-! ### Digits -/

/-- All characters of a run of digits are digits. -/
theorem isSome_of_digitsValue? {digit? : Char → Option Nat} {base : Nat}
    (h : digitsValue? digit? base cs = some n) : ∀ c ∈ cs, (digit? c).isSome := by
  -- Over all accumulators: a fold that ends in a value has started with one.
  have key : ∀ (cs : List Char) (acc : Option Nat),
      cs.foldl (fun acc c => do return (← acc) * base + (← digit? c)) acc = some n →
        acc.isSome ∧ ∀ c ∈ cs, (digit? c).isSome := by
    intro cs
    induction cs with
    | nil =>
      intro acc hacc
      exact ⟨by simpa using congrArg Option.isSome hacc, by simp⟩
    | cons c cs ih =>
      intro acc hacc
      obtain ⟨hfirst, hrest⟩ := ih _ hacc
      cases acc with
      | none => cases hfirst
      | some a =>
        cases hc : digit? c with
        | none =>
          dsimp only at hfirst
          rw [hc] at hfirst
          cases hfirst
        | some d =>
          refine ⟨rfl, ?_⟩
          intro c' hc'
          rcases List.mem_cons.1 hc' with rfl | hmem
          · rw [hc]
            rfl
          · exact hrest c' hmem
  cases cs with
  | nil => cases h
  | cons c cs => exact (key _ _ h).2

/-- A word is what its digits are, if there is no sign and if there are not too many. -/
theorem word?_of_digits {digit? : Char → Option Nat} {base : Nat}
    (h : digitsValue? digit? base cs = some n) (hplus : digit? '+' = none) :
    word? digit? base cs = if n < pow2 64 then some n else none := by
  have hdigits := isSome_of_digitsValue? h
  unfold word?
  split
  · next r =>
    have hnone := hdigits '+' (List.mem_cons_self ..)
    rw [hplus] at hnone
    cases hnone
  · dsimp only
    rw [h]

/-! ### Numbers -/

/-- A token spells a number in decimal or in hexadecimal digits. -/
def Token.Spells (t : Token) (n : Nat) : Prop :=
  t.kind = .integerLiteral ∧
    (digitsValue? Text.decimalValue? 10 t.text.toList = some n ∨
      ∃ ds, (t.text.toList = '0' :: 'x' :: ds ∨ t.text.toList = '0' :: 'X' :: ds) ∧
        digitsValue? Text.hexValue? 16 ds = some n)

theorem pow2_31 : pow2 31 = 2147483648 := by decide +kernel

theorem pow2_32 : pow2 32 = 4294967296 := by decide +kernel

theorem pow2_64 : pow2 64 = 18446744073709551616 := by decide +kernel

/-- A word of 32 bits is one of 64. -/
theorem wrap_of_abs_lt {n : Int} (hlow : -(pow2 31 : Int) < n) (hhigh : n < pow2 31) :
    Numeral.wrap n = n := by
  rw [pow2_31] at hlow hhigh
  unfold Numeral.wrap
  rw [pow2_64]
  apply Int.bmod_eq_of_le <;> omega

/-- It is an operand of 32 bits. -/
theorem numeralOperand?_int {m : Numeral} (hlow : -(pow2 31 : Int) < m.whole)
    (hhigh : m.whole < pow2 31) :
    Walk.numeralOperand? m .int = some (.int (Int32.ofInt m.whole)) := by
  have hfits : Walk.fits 32 m.whole = true := by
    rw [pow2_31] at hlow hhigh
    have h31 : pow2 (32 - 1) = 2147483648 := pow2_31
    unfold Walk.fits
    simp only [h31, pow2_32, Bool.and_eq_true, decide_eq_true_eq]
    omega
  show (if Walk.fits 32 m.whole then some (Operand.int (Int32.ofInt m.whole)) else none) = _
  rw [if_pos hfits]

/-- What digits denote, decimal ones or hexadecimal ones after `0x`: they are taken for a word of 64
    bits, and there is none for more. They do not start with a minus sign. -/
theorem unsigned?_of_digits (h : digitsValue? Text.decimalValue? 10 cs = some n ∨ ∃ ds, (cs = '0' ::
      'x' :: ds ∨ cs = '0' :: 'X' :: ds) ∧ digitsValue? Text.hexValue? 16 ds = some n) :
    (Numeral.unsigned? cs).map Numeral.whole =
      (if n < pow2 64 then some (Numeral.wrap n) else none) ∧
      ∀ r, cs ≠ '-' :: r := by
  rcases h with hdigits | ⟨ds, htext, hdigits⟩
  · have hall := isSome_of_digitsValue? hdigits
    -- No character that is not a digit is there, so no other branch is taken.
    have habsent : ∀ c, Text.decimalValue? c = none → c ∉ cs := by
      intro c hc hmem
      have hsome := hall c hmem
      rw [hc] at hsome
      cases hsome
    have hpoint := habsent '.' (by decide)
    have hlower := habsent 'x' (by decide)
    have hupper := habsent 'X' (by decide)
    have hminus := habsent '-' (by decide)
    have hword : decimalWord? cs = _ := word?_of_digits hdigits (by decide)
    refine ⟨?_, ?_⟩
    · unfold Numeral.unsigned?
      split
      · simp at hlower
      · simp at hupper
      · rw [if_neg (by simpa using hpoint), hword]
        split <;> simp only [Option.map_some, Option.map_none]
    · rintro r rfl
      simp at hminus
  · have hword : hexWord? ds = _ := word?_of_digits hdigits (by decide)
    have hhex : (Numeral.unsigned?.hex? ds).map Numeral.whole =
        if n < pow2 64 then some (Numeral.wrap n) else none := by
      unfold Numeral.unsigned?.hex?
      rw [hword]
      split <;> simp only [Option.map_some, Option.map_none]
    rcases htext with rfl | rfl
    · exact ⟨hhex, by simp⟩
    · exact ⟨hhex, by simp⟩

theorem Token.Spells.unsigned? (h : t.Spells n) (hn : n < pow2 31) :
    (∃ m, Numeral.unsigned? t.text.toList = some m ∧ m.whole = n) ∧
      ∀ r, t.text.toList ≠ '-' :: r := by
  obtain ⟨hwhole, hsign⟩ := unsigned?_of_digits h.2
  rw [pow2_31] at hn
  have hwrap : Numeral.wrap n = n := by
    apply wrap_of_abs_lt <;> rw [pow2_31] <;> omega
  rw [if_pos (by rw [pow2_64]; omega), hwrap] at hwhole
  exact ⟨Option.map_eq_some_iff.1 hwhole, hsign⟩

/-- A number that is spelled out is an operand. -/
theorem Token.Spells.operand (h : t.Spells n) (hn : n < pow2 31) :
    (Walk.literalValue? t).bind (Walk.numeralOperand? · .int) = some (.int (Int32.ofNat n)) := by
  obtain ⟨⟨m, hm, hwhole⟩, hsign⟩ := h.unsigned? hn
  have hvalue : Walk.literalValue? t = some m := by
    unfold Walk.literalValue?
    rw [h.1]
    show Numeral.ofChars? t.text.toList = some m
    unfold Numeral.ofChars?
    split
    -- A literal has no sign of its own.
    · next r heq => exact absurd heq (hsign r)
    · exact hm
  rw [pow2_31] at hn
  rw [hvalue, Option.bind_some, numeralOperand?_int, hwhole]
  · rfl
  all_goals rw [hwhole, pow2_31]; omega

/-- With a minus sign in front it is the operand of the opposite number. -/
theorem Token.Spells.negated (h : t.Spells n) (hn : n < pow2 31) :
    (Walk.literalValue? (Walk.negated t)).bind (Walk.numeralOperand? · .int) =
      some (.int (-Int32.ofNat n)) := by
  obtain ⟨⟨m, hm, hwhole⟩, -⟩ := h.unsigned? hn
  have hvalue : Walk.literalValue? (Walk.negated t) = some m.negate := by
    unfold Walk.literalValue?
    have hkind : (Walk.negated t).kind = .integerLiteral := h.1
    have htext : (Walk.negated t).text.toList = '-' :: t.text.toList := by
      show ("-" ++ t.text).toList = _
      rw [String.toList_append]
      rfl
    rw [hkind]
    show Numeral.ofChars? (Walk.negated t).text.toList = some m.negate
    rw [htext]
    show (Numeral.unsigned? t.text.toList).map Numeral.negate = _
    rw [hm]
    rfl
  rw [pow2_31] at hn
  -- A number below 2³¹ has an opposite among words of 32 bits.
  have hopposite : m.negate.whole = -n := by
    show Numeral.wrap (-m.whole) = -n
    rw [hwhole]
    apply wrap_of_abs_lt <;> rw [pow2_31] <;> omega
  rw [hvalue, Option.bind_some, numeralOperand?_int, hopposite, Int32.ofInt_neg]
  · rfl
  all_goals rw [hopposite, pow2_31]; omega

/-! ### Truth values -/

/-- A token spells a truth value. -/
def Token.SpellsTruth (t : Token) (b : Bool) : Prop :=
  t.kind = .booleanLiteral ∧ b = (t.text.toList.map Char.toLower == "true".toList)

theorem Token.SpellsTruth.operand {b : Bool} (h : t.SpellsTruth b) :
    (Walk.literalValue? t).bind (Walk.numeralOperand? · .bool) = some (.bool b) := by
  have hvalue : Walk.literalValue? t = some (.ofBool b) := by
    unfold Walk.literalValue?
    rw [h.1, h.2]
  rw [hvalue]
  cases b <;> decide +kernel

end StateScript
