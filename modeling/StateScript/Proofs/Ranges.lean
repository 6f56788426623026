import Mathlib.Data.Nat.Digits.Defs
import StateScript.Proofs.Literals
import StateScript.Proofs.Walk.Keeping

/-! # Ranges of whole numbers

  A literal is an operand of `byte`, `short` or `int` if the number that it denotes can be written
  with so many bits, with or without a sign, and then its low bits are the operand. The number is
  a word of 64 bits, though, into which the text is folded first: what the text says is what is
  checked as long as it is at most `2 ^ 63` off zero. Beyond that a number close to `2 ^ 64` is
  taken for a small one of the opposite sign.
-/

namespace StateScript

open Number

/-! ### Texts of whole numbers -/

/-- Digits of a number in a base, the highest first. -/
def Digits (digit? : Char → Option Nat) (base : Nat) (cs : List Char) (n : Nat) : Prop :=
  ∃ ds, ds ≠ [] ∧ cs.map digit? = ds.map some ∧ n = Nat.ofDigits base ds.reverse

theorem foldl_digits {digit? : Char → Option Nat} (base : Nat) {cs : List Char} {ds : List Nat}
    (h : cs.map digit? = ds.map some) (a : Nat) :
    cs.foldl (fun acc c => do return (← acc) * base + (← digit? c)) (some a) =
      some (ds.foldl (fun acc d => d + base * acc) a) := by
  induction cs generalizing ds a with
  | nil =>
    cases ds with
    | nil => rfl
    | cons d ds => cases h
  | cons c cs ih =>
    cases ds with
    | nil => cases h
    | cons d ds =>
      obtain ⟨hc, hcs⟩ := List.cons.inj h
      have hvalue : (do return (← some a) * base + (← digit? c)) = some (d + base * a) := by
        rw [hc]
        show some (a * base + d) = _
        rw [Nat.add_comm, Nat.mul_comm]
      rw [List.foldl_cons, hvalue, ih hcs]
      rfl

theorem Digits.value {digit? : Char → Option Nat} {base n : Nat} {cs : List Char}
    (h : Digits digit? base cs n) : digitsValue? digit? base cs = some n := by
  obtain ⟨ds, hne, hmap, rfl⟩ := h
  have hfold := foldl_digits base hmap 0
  rw [Nat.ofDigits_eq_foldr, List.foldr_reverse]
  cases cs with
  | nil =>
    cases ds with
    | nil => exact absurd rfl hne
    | cons d ds => cases hmap
  | cons c cs => exact hfold

/-- The text of the whole number `v`, which is `n` off zero: decimal digits, or hexadecimal ones
    after
    `0x`, and a minus sign that was folded into it. -/
def WholeText (text : List Char) (n : Nat) (v : Int) : Prop :=
  ∃ cs, (Digits Text.decimalValue? 10 cs n ∨
      ∃ ds, cs = '0' :: 'x' :: ds ∧ Digits Text.hexValue? 16 ds n) ∧
    (text = cs ∧ v = n ∨ text = '-' :: cs ∧ v = -n)

/-- A word is the same as the number that it was folded from, as far as its bits go. -/
theorem wrap_emod (v : Int) {k : Nat} (h : k ∣ pow2 64) : Numeral.wrap v % k = v % k := by
  have hdvd : (k : Int) ∣ (pow2 64 : Nat) := Int.natCast_dvd_natCast.2 h
  rw [Numeral.wrap, ← Int.emod_emod_of_dvd _ hdvd, Int.bmod_emod, Int.emod_emod_of_dvd _ hdvd]

/-- What the text of a whole number denotes. -/
theorem WholeText.ofChars? {text : List Char} {n : Nat} {v : Int} (h : WholeText text n v) :
    (Numeral.ofChars? text).map Numeral.whole =
      if n < pow2 64 then some (Numeral.wrap v) else none := by
  obtain ⟨cs, hcs, hsign⟩ := h
  obtain ⟨hwhole, hminus⟩ : (Numeral.unsigned? cs).map Numeral.whole = _ ∧ ∀ r, cs ≠ '-' :: r := by
    rcases hcs with hdecimal | ⟨ds, htext, hhex⟩
    · exact unsigned?_of_digits (.inl hdecimal.value)
    · exact unsigned?_of_digits (.inr ⟨ds, .inl htext, hhex.value⟩)
  rcases hsign with ⟨rfl, rfl⟩ | ⟨rfl, rfl⟩
  · unfold Numeral.ofChars?
    split
    · next r => exact absurd rfl (hminus r)
    · exact hwhole
  -- A negative literal is the negation of what stands behind its sign.
  · show ((Numeral.unsigned? cs).map Numeral.negate).map Numeral.whole = _
    split at hwhole
    · next hn =>
      obtain ⟨m, hm, hmwhole⟩ := Option.map_eq_some_iff.1 hwhole
      rw [hm, if_pos hn]
      show some (Numeral.wrap (-m.whole)) = _
      rw [hmwhole]
      simp only [Numeral.wrap, Int.bmod_neg_bmod]
    · next hn =>
      rw [Option.map_eq_none_iff.1 hwhole, if_neg hn]
      rfl

/-- Up to `2 ^ 63` a number is its own word, but for `2 ^ 63` itself. -/
theorem WholeText.word {text : List Char} {n : Nat} {v : Int} (h : WholeText text n v)
    (hn : n ≤ pow2 63) :
    Int.bmod v (pow2 64) = v ∨ v = pow2 63 ∧ Int.bmod v (pow2 64) = -(pow2 63 : Int) := by
  obtain ⟨cs, -, hsign⟩ := h
  have hv : v = n ∨ v = -n := hsign.imp And.right And.right
  have h63 : pow2 63 = 9223372036854775808 := by decide +kernel
  rw [h63] at hn ⊢
  rw [pow2_64, Int.bmod_def]
  clear hsign
  split <;> omega

/-! ### Types of whole numbers -/

/-- The types that whole numbers are checked for. -/
inductive Width where
  | byte
  | short
  | int

namespace Width

def bits : Width → Nat
  | .byte => 8
  | .short => 16
  | .int => 32

def type : Width → ValueType
  | .byte => .scalar .byte
  | .short => .scalar .short
  | .int => .scalar .int

/-- The bits of an operand of the type, as a number. -/
def pattern? : Width → Operand → Option Nat
  | .byte, .byte n => some n.toNat
  | .short, .short n => some n.toUInt16.toNat
  | .int, .int n => some n.toUInt32.toNat
  | _, _ => none

/-- A number that can be written with the bits of the type, with or without a sign. -/
def Holds (w : Width) (v : Int) : Prop := -(pow2 (w.bits - 1) : Int) ≤ v ∧ v < pow2 w.bits

instance (w : Width) (v : Int) : Decidable (w.Holds v) := inferInstanceAs (Decidable (_ ∧ _))

theorem Holds.bounds {w : Width} {v : Int} (h : w.Holds v) :
    -(pow2 31 : Int) ≤ v ∧ v < pow2 32 := by
  have hlow : pow2 (w.bits - 1) ≤ pow2 31 := by cases w <;> decide +kernel
  have hhigh : pow2 w.bits ≤ pow2 32 := by cases w <;> decide +kernel
  have hleft := h.1
  have hright := h.2
  omega

theorem bits_dvd (w : Width) : pow2 w.bits ∣ pow2 64 := by
  cases w <;> decide +kernel

/-- A number is an operand if the type holds it, and then its low bits are. -/
theorem numeralOperand?_eq (w : Width) (m : Numeral) :
    (w.Holds m.whole → ∃ x, Walk.numeralOperand? m w.type = some x ∧
      w.pattern? x = some (m.whole % pow2 w.bits).toNat) ∧
    (¬ w.Holds m.whole → Walk.numeralOperand? m w.type = none) := by
  have hfits : Walk.fits w.bits m.whole = true ↔ w.Holds m.whole := by
    simp [Walk.fits, Holds]
  rw [← hfits]
  refine ⟨fun h => ?_, fun h => ?_⟩
  · cases w with
    | byte =>
      refine ⟨_, if_pos h, congrArg some ?_⟩
      rw [UInt8.toNat_ofNat']
      exact Nat.mod_eq_of_lt (by omega)
    | short => exact ⟨_, if_pos h, congrArg some (BitVec.toNat_ofInt (n := 16) ..)⟩
    | int => exact ⟨_, if_pos h, congrArg some (BitVec.toNat_ofInt (n := 32) ..)⟩
  · cases w <;> exact if_neg h

end Width

/-- Whole numbers are not interned, as texts are. -/
theorem Width.literalOperand_eq (w : Width) (t : Token) (s : Walk.State) :
    Walk.literalOperand t w.type s =
      (match (Walk.literalValue? t).bind (Walk.numeralOperand? · w.type) with
        | some x => pure x
        | none => Walk.errorHere .invalidLiteral
            s!"'{t.render}' is not a valid {w.type.render} literal" : Walk Operand) s := by
  cases w <;> rfl

/-- The second walk reports what it abandons a statement for. -/
theorem Walk.errorHere_eq {α : Type} (code : Code) (message : String) {s : State}
    (hpass : s.pass = .emit) :
    ∃ d : Diagnostic, d.code = code ∧ d.level = .error ∧
      (errorHere code message : Walk α) s = .error .abandoned { s with log := s.log.push d } := by
  unfold errorHere errorAt position
  rw [view_bind, emitting_bind_emit hpass, if_pos rfl]
  let place := s.location s.pos
  exact ⟨⟨code, message, .error, place.line, place.offset, place.file⟩, rfl, rfl, rfl⟩

/-- A whole number as a literal. Its text is folded into a word of 64 bits, for which it must be
    less than
    `2 ^ 64` off zero. If the type holds this word, the literal is an operand that has the low bits
    of the number; else the second walk reports it. Up to `2 ^ 63` the word is as good as the
    number. -/
theorem literal_ranges {t : Token} (hkind : t.kind.isNumericLiteral = true) {n : Nat} {v : Int}
    (htext : WholeText t.text.toList n v) (w : Width) {s : Walk.State} (hpass : s.pass = .emit) :
    (n < pow2 64 ∧ w.Holds (Int.bmod v (pow2 64)) →
      ∃ x, Walk.literalOperand t w.type s = .ok x s ∧ w.pattern? x = some (v % pow2 w.bits).toNat) ∧
    (¬ (n < pow2 64 ∧ w.Holds (Int.bmod v (pow2 64))) →
      ∃ d : Diagnostic, d.code = .invalidLiteral ∧ d.level = .error ∧
        Walk.literalOperand t w.type s = .error .abandoned { s with log := s.log.push d }) ∧
    (n ≤ pow2 63 → (n < pow2 64 ∧ w.Holds (Int.bmod v (pow2 64)) ↔ w.Holds v)) := by
  -- The text gives a word of 64 bits, or none.
  have hvalue : (Walk.literalValue? t).map Numeral.whole =
      if n < pow2 64 then some (Numeral.wrap v) else none := by
    rw [← htext.ofChars?]
    unfold Walk.literalValue?
    split
    · next hbool => rw [hbool] at hkind; cases hkind
    · next hstring => rw [hstring] at hkind; cases hkind
    · rfl
  rw [w.literalOperand_eq]
  refine ⟨?_, ?_, ?_⟩
  · rintro ⟨hn, hholds⟩
    rw [if_pos hn] at hvalue
    obtain ⟨m, hm, hwhole⟩ := Option.map_eq_some_iff.1 hvalue
    obtain ⟨x, hx, hpattern⟩ := (w.numeralOperand?_eq m).1 (hwhole ▸ hholds)
    rw [hm, Option.bind_some, hx]
    refine ⟨x, rfl, ?_⟩
    rw [hpattern, hwhole, wrap_emod v w.bits_dvd]
  · intro hnot
    have hnone : (Walk.literalValue? t).bind (Walk.numeralOperand? · w.type) = none := by
      split at hvalue
      · next hn =>
        obtain ⟨m, hm, hwhole⟩ := Option.map_eq_some_iff.1 hvalue
        rw [hm, Option.bind_some]
        refine (w.numeralOperand?_eq m).2 fun hholds => hnot ⟨hn, ?_⟩
        rwa [hwhole] at hholds
      · rw [Option.map_eq_none_iff.1 hvalue, Option.bind_none]
    rw [hnone]
    exact Walk.errorHere_eq _ _ hpass
  · intro hn
    rcases htext.word hn with hword | ⟨hv, hword⟩
    · rw [hword]
      exact ⟨fun h => h.2, fun h => ⟨Nat.lt_of_le_of_lt hn (by decide +kernel), h⟩⟩
    · -- The least word is its own opposite, and neither of the two fits.
      have hlarge : (pow2 32 : Int) ≤ pow2 63 := by decide +kernel
      have hsmall : (pow2 31 : Int) < pow2 63 := by decide +kernel
      refine ⟨fun h => ?_, fun h => ?_⟩
      · have hlow := h.2.bounds.1
        omega
      · have hhigh := h.bounds.2
        omega

/-- The greatest word is taken for `-1`. -/
theorem literal_ranges_greatest :
    let t : Token := ⟨.integerLiteral, "18446744073709551615", 1, 9, "a.ks"⟩
    let s : Walk.State := { Walk.State.initial {} [] with pass := .emit }
    WholeText t.text.toList 18446744073709551615 18446744073709551615 ∧
      ∃ x, Walk.literalOperand t Width.int.type s = .ok x s ∧
        Width.int.pattern? x = some 4294967295 := by
  have htext : WholeText "18446744073709551615".toList 18446744073709551615
      18446744073709551615 := by
    refine ⟨_, .inl ⟨[1, 8, 4, 4, 6, 7, 4, 4, 0, 7, 3, 7, 0, 9, 5, 5, 1, 6, 1, 5], ?_, ?_, ?_⟩,
      .inl ⟨rfl, rfl⟩⟩
    · decide
    · decide
    · decide
  have hranges :=
    literal_ranges (t := ⟨.integerLiteral, "18446744073709551615", 1, 9, "a.ks"⟩) rfl htext .int
    (s := { Walk.State.initial {} [] with pass := .emit }) rfl
  exact ⟨htext, hranges.1 (by decide +kernel)⟩

end StateScript
