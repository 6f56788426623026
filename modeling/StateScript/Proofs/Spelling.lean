import Mathlib.Data.List.TakeWhile
import StateScript.Proofs.LineEnds

/-! # How tokens are spelled

  `Spells l kind text` says which texts stand for which tokens, one rule for each sort
  of token. Reading and this grammar agree in both directions: a clean reading of a token
  covers a text that spells it, and a text that spells a token is read as that token
  wherever a blank or the end of the text comes after it. The second direction is what a
  newline after a lexeme is to `read_append_newline`, with any blank in its place.
-/

namespace StateScript

namespace Reading

variable {c : Char} {p : Char → Bool} {suffix? : Char → Option Kind}
  {cs fraction l r s suffix : List Char}

open Text

/-! ### What a blank ends -/

/-- A visible character of ASCII. All spellings but those of strings are made of these. -/
def IsGraphic (c : Char) : Prop := 0x21 ≤ c.toNat ∧ c.toNat ≤ 0x7E

theorem IsGraphic.isBlank (h : IsGraphic c) : isBlank c = false := by
  obtain ⟨hlo, hhi⟩ := h
  simp only [Text.isBlank, blankRanges, List.any_cons, List.any_nil, Bool.or_false,
    Bool.or_eq_false_iff, Bool.and_eq_false_iff, decide_eq_false_iff_not]
  omega

theorem isGraphic_of_isHexDigit (h : isHexDigit c = true) : IsGraphic c := by
  have hle : ∀ d : Char, d ≤ c ↔ d.toNat ≤ c.toNat := fun d => Iff.rfl
  have hge : ∀ d : Char, c ≤ d ↔ c.toNat ≤ d.toNat := fun d => Iff.rfl
  unfold isHexDigit hexValue? at h
  simp only [hle, hge, Char.reduceToNat] at h
  unfold IsGraphic
  split at h
  · omega
  · split at h
    · omega
    · split at h
      · omega
      · cases h

theorem isHexDigit_of_isDigit (h : isDigit c = true) : isHexDigit c = true := by
  unfold isDigit decimalValue? at h
  unfold isHexDigit hexValue?
  split at h
  · rename_i hc
    simp [hc]
  · cases h

theorem isAlpha_iff (c : Char) : c.isAlpha = true ↔
    65 ≤ c.toNat ∧ c.toNat ≤ 90 ∨ 97 ≤ c.toNat ∧ c.toNat ≤ 122 := by
  change (decide (65 ≤ c.toNat ∧ c.toNat ≤ 90) ||
    (decide (97 ≤ c.toNat) && decide (c.toNat ≤ 122))) = true ↔ _
  simp only [Bool.or_eq_true, Bool.and_eq_true, decide_eq_true_eq]

theorem isGraphic_of_isWordChar (h : isWordChar c = true) : IsGraphic c := by
  have hval : c.val.toNat = c.toNat := rfl
  simp only [isWordChar, Char.isAlphanum, isAlpha_iff, Char.isDigit,
    Bool.or_eq_true, Bool.and_eq_true, decide_eq_true_eq, beq_iff_eq, UInt32.le_iff_toNat_le, hval]
    at h
  unfold IsGraphic
  rcases h with ((h | h) | h) | rfl
  · omega
  · omega
  · simp at h
    omega
  · decide

/-- A text that is over or goes on with a blank. -/
def SetOff (s : List Char) : Prop := ∀ c, s.head? = some c → isBlank c = true

theorem setOff_nil : SetOff [] := by
  intro c h
  cases h

theorem setOff_blank (hc : isBlank c = true) (s : List Char) : SetOff (c :: s) := by
  intro d h
  obtain rfl := Option.some.inj h
  exact hc

section SetOff

variable {s : List Char} (hs : SetOff s)
include hs

theorem SetOff.head?_ne (hc : IsGraphic c) : s.head? ≠ some c := by
  intro h
  have hblank := hs c h
  rw [hc.isBlank] at hblank
  cases hblank

/-- A class of visible characters ends in front of a blank. -/
theorem SetOff.fails (hp : ∀ c, p c = true → IsGraphic c) :
    ∀ c, s.head? = some c → p c = false := by
  intro c hc
  by_cases h : p c = true
  · exact absurd hc (hs.head?_ne (hp c h))
  · simpa using h

theorem SetOff.startsWord : startsWord s = false := by
  cases s with
  | nil => rfl
  | cons c s => exact hs.fails (fun _ => isGraphic_of_isWordChar) c rfl

end SetOff

theorem takeWhile_append_of_fails (hl : ∀ c ∈ l, p c = true)
    (hs : ∀ c, s.head? = some c → p c = false) : (l ++ s).takeWhile p = l := by
  have hrest : s.takeWhile p = [] := by
    cases s with
    | nil => rfl
    | cons c s => simp [hs c rfl]
  rw [List.takeWhile_append_of_pos hl, hrest, List.append_nil]

theorem takeWhile_append_drop (p : Char → Bool) (l : List Char) :
    l.takeWhile p ++ l.drop (l.takeWhile p).length = l :=
  List.prefix_iff_eq_append.1 (List.takeWhile_prefix p)

/-! ### The grammar -/

/-- `Written w t` says that `w` stands for the text `t` between the quotes of a string. -/
inductive Written : List Char → List Char → Prop
  | nil : Written [] []
  | plain {c : Char} {w t : List Char} : c ≠ '"' → c ≠ '\n' → c ≠ '\\' → Written w t →
      Written (c :: w) (c :: t)
  | escape {letter c : Char} {w t : List Char} : unescapeLetter? letter = some c → Written w t →
      Written ('\\' :: letter :: w) (c :: t)

/-- What stands behind the digits of a number: nothing, or a letter that gives it its kind. -/
inductive Suffixed (suffix? : Char → Option Kind) (plain : Kind) : List Char → Kind → Prop
  | none : Suffixed suffix? plain [] plain
  | letter {c : Char} {kind : Kind} : suffix? c = some kind → Suffixed suffix? plain [c] kind

/-- A radix point with digits behind it, or nothing. -/
inductive Fraction : List Char → Prop
  | none : Fraction []
  | point {digits : List Char} : (∀ c ∈ digits, isDigit c = true) → Fraction ('.' :: digits)

/-- The kind of a decimal number without a suffix. -/
def plainKind (fraction : List Char) : Kind :=
  if !fraction.isEmpty then .floatLiteral else .integerLiteral

/-- `Spells l kind text` says that `l` is a spelling of the token of this kind and text. -/
inductive Spells : List Char → Kind → String → Prop
  | string {w t : List Char} : Written w t →
      Spells ('"' :: (w ++ ['"'])) .stringLiteral (String.ofList t)
  | hexadecimal {x : Char} {digits suffix : List Char} {kind : Kind} : x = 'x' ∨ x = 'X' →
      digits ≠ [] → (∀ c ∈ digits, isHexDigit c = true) →
      Suffixed hexSuffix? .integerLiteral suffix kind →
      Spells ('0' :: x :: (digits ++ suffix)) kind ("0x" ++ String.ofList digits)
  | decimal {whole fraction suffix : List Char} {kind : Kind} : whole ≠ [] →
      (∀ c ∈ whole, isDigit c = true) → Fraction fraction →
      Suffixed decimalSuffix? (plainKind fraction) suffix kind →
      (fraction ≠ [] → isIntegralSuffix kind = false) →
      Spells (whole ++ (fraction ++ suffix)) kind (String.ofList (whole ++ fraction))
  | word {c : Char} {l : List Char} {kind : Kind} {text : String} : isWordStart c = true →
      (∀ d ∈ l, isWordChar d = true) → (word (c :: l)).token = some (kind, text) →
      Spells (c :: l) kind text
  | operator {l : List Char} {kind : Kind} : (l, kind) ∈ operators →
      Spells l kind (kind.symbol?.getD "")

/-! ### Strings -/

theorem stringRest_of_written {w t : List Char} (h : Written w t) (k : Nat) (s : List Char) :
    stringRest k (w ++ '"' :: s) = (w.length + 1, t, [], true) := by
  induction h generalizing k with
  | nil => simp [stringRest]
  | @plain c w t hquote hnewline hslash _ ih =>
    rw [List.cons_append, stringRest.eq_7 _ _ _ hquote hnewline (by simp [hslash])
      (by simp [hslash]) (by simp [hslash]), ih]
    rfl
  | @escape letter c w t hletter _ ih =>
    have hnewline : letter ≠ '\n' := by
      rintro rfl
      cases hletter
    rw [List.cons_append, List.cons_append, stringRest.eq_6 _ _ _ (by simp [hnewline]), ih, hletter]
    rfl

theorem written_of_stringRest {k width : Nat} {t : List Char}
    (h : stringRest k r = (width, t, [], true)) : ∃ w, r.take width = w ++ ['"'] ∧ Written w t := by
  fun_induction stringRest k r generalizing width t with
  | case1 | case3 | case4 | case5 => simp at h
  | case2 k r =>
    simp only [Prod.mk.injEq] at h
    obtain ⟨rfl, rfl, -⟩ := h
    exact ⟨[], rfl, .nil⟩
  -- An escape that stands for a character.
  | case6 k c r hc width' text faults closed hrest d hletter ih =>
    simp only [Prod.mk.injEq] at h
    obtain ⟨rfl, rfl, rfl, rfl⟩ := h
    obtain ⟨w, hw, hwritten⟩ := ih hrest
    exact ⟨'\\' :: c :: w, by simp [hw], .escape hletter hwritten⟩
  | case7 => simp at h
  -- Any other character stands for itself.
  | case8 k c r hquote hnewline hlast hline hescape width' text faults closed hrest ih =>
    simp only [Prod.mk.injEq] at h
    obtain ⟨rfl, rfl, rfl, rfl⟩ := h
    obtain ⟨w, hw, hwritten⟩ := ih hrest
    have hslash : c ≠ '\\' := by
      intro hc
      cases r with
      | nil => exact hlast hc rfl
      | cons d r => exact hescape d r hc rfl
    exact ⟨c :: w, by simp [hw], .plain hquote hnewline hslash hwritten⟩

theorem string_of_written {w t : List Char} (h : Written w t) (s : List Char) :
    string (w ++ '"' :: s) = ⟨w.length + 2, some (.stringLiteral, String.ofList t), []⟩ := by
  unfold string
  rw [stringRest_of_written h]
  rfl

theorem spells_of_string {kind : Kind} {text : String}
    (htoken : (string r).token = some (kind, text)) (hfaults : (string r).faults = []) :
    Spells (('"' :: r).take (string r).width) kind text := by
  rcases hrest : stringRest 1 r with ⟨width, t, faults, closed⟩
  unfold string at htoken hfaults ⊢
  simp only [hrest] at htoken hfaults ⊢
  cases closed with
  | false => simp at htoken
  | true =>
    simp only [if_true, Option.some.injEq, Prod.mk.injEq] at htoken hfaults ⊢
    obtain ⟨rfl, rfl⟩ := htoken
    subst hfaults
    obtain ⟨w, hw, hwritten⟩ := written_of_stringRest hrest
    rw [List.take_succ_cons, hw]
    exact .string hwritten

/-! ### Numbers -/

/-- The suffix at the start of a text, and what it adds to the width of a number. -/
theorem exists_suffixed (suffix? : Char → Option Kind) (plain : Kind) (rest : List Char) :
    ∃ suffix rest', rest = suffix ++ rest' ∧
      Suffixed suffix? plain suffix ((rest.head?.bind suffix?).getD plain) ∧
      ∀ width, (if (rest.head?.bind suffix?).isSome then width + 1 else width) =
        width + suffix.length := by
  cases rest with
  | nil => exact ⟨[], [], rfl, .none, fun _ => rfl⟩
  | cons c rest =>
    cases hc : suffix? c with
    | none =>
      refine ⟨[], c :: rest, rfl, ?_, ?_⟩
      · simpa [hc] using Suffixed.none
      · simp [hc]
    | some kind =>
      refine ⟨[c], rest, rfl, ?_, ?_⟩
      · simpa [hc] using Suffixed.letter hc
      · simp [hc]

section Suffixed

variable {suffix? : Char → Option Kind} {plain kind : Kind} {suffix s : List Char}
variable (h : Suffixed suffix? plain suffix kind) (hs : ∀ c, s.head? = some c → suffix? c = none)
include h hs

theorem getD_of_suffixed : ((suffix ++ s).head?.bind suffix?).getD plain = kind := by
  cases h with
  | none =>
    cases s with
    | nil => rfl
    | cons c s => simp [hs c rfl]
  | letter hc => simp [hc]

theorem width_of_suffixed (width : Nat) :
    (if ((suffix ++ s).head?.bind suffix?).isSome then width + 1 else width) =
      width + suffix.length := by
  cases h with
  | none =>
    cases s with
    | nil => rfl
    | cons c s => simp [hs c rfl]
  | letter hc => simp [hc]

end Suffixed

/-- A text of characters `p` in front of a suffix ends there. -/
theorem fails_suffixed {plain kind : Kind} (h : Suffixed suffix? plain suffix kind)
    (hp : ∀ c, (suffix? c).isSome = true → p c = false) (hs : ∀ c, s.head? = some c → p c = false) :
    ∀ c, (suffix ++ s).head? = some c → p c = false := by
  cases h with
  | none => exact hs
  | letter hc =>
    intro c hhead
    obtain rfl := Option.some.inj hhead
    exact hp _ (by simp [hc])

theorem isWordChar_of_decimalSuffix? (h : (decimalSuffix? c).isSome = true) :
    isWordChar c = true ∧ isDigit c = false ∧ c ≠ '.' ∧ c ≠ 'x' ∧ c ≠ 'X' := by
  unfold decimalSuffix? at h
  repeat' split at h
  all_goals first
    | (rename_i hc; rcases hc with rfl | rfl <;> decide)
    | cases h

theorem isWordChar_of_hexSuffix? (h : (hexSuffix? c).isSome = true) :
    isWordChar c = true ∧ isHexDigit c = false ∧ c ≠ '.' := by
  unfold hexSuffix? at h
  repeat' split at h
  all_goals first
    | (rename_i hc; rcases hc with rfl | rfl <;> decide)
    | cases h

theorem SetOff.no_suffix (hs : SetOff s)
    (h : ∀ c, (suffix? c).isSome = true → isWordChar c = true) :
    ∀ c, s.head? = some c → suffix? c = none := by
  intro c hc
  by_cases hsome : (suffix? c).isSome = true
  · exact absurd hc (hs.head?_ne (isGraphic_of_isWordChar (h c hsome)))
  · simpa using hsome

/-- A suffix does not begin with a radix point, nor does what comes after the number. -/
theorem head?_suffixed_beq {plain kind : Kind} (h : Suffixed suffix? plain suffix kind)
    (hs : SetOff s) (hp : ∀ c, (suffix? c).isSome = true → c ≠ '.') :
    ((suffix ++ s).head? == some '.') = false := by
  rw [beq_eq_false_iff_ne]
  cases h with
  | none => exact hs.head?_ne ⟨by decide, by decide⟩
  | letter hc =>
    intro hhead
    obtain rfl := Option.some.inj hhead
    exact hp _ (by simp [hc]) rfl

theorem hexadecimal_of_spells {digits : List Char} {kind : Kind} (hs : SetOff s) (hne : digits ≠ [])
    (hdigits : ∀ c ∈ digits, isHexDigit c = true)
    (hsuffix : Suffixed hexSuffix? .integerLiteral suffix kind)
    (hcs : cs.drop (digits.length + 2 + suffix.length) = s) :
    hexadecimal cs (digits ++ (suffix ++ s)) =
      ⟨digits.length + 2 + suffix.length, some (kind, "0x" ++ String.ofList digits), []⟩ := by
  -- Neither a suffix nor what follows is a digit.
  have htake : (digits ++ (suffix ++ s)).takeWhile isHexDigit = digits :=
    takeWhile_append_of_fails hdigits <| fails_suffixed hsuffix
      (fun c hc => (isWordChar_of_hexSuffix? hc).2.1) (hs.fails fun _ => isGraphic_of_isHexDigit)
  have hpoint := head?_suffixed_beq hsuffix hs fun c hc => (isWordChar_of_hexSuffix? hc).2.2
  have hnone := hs.no_suffix fun c hc => (isWordChar_of_hexSuffix? hc).1
  unfold hexadecimal
  simp only [htake, List.drop_left, getD_of_suffixed hsuffix hnone,
    width_of_suffixed hsuffix hnone, hcs, hs.startsWord, hpoint]
  simp [hne]

theorem take_length_of_append {a b : List Char} (h : a ++ b = cs) : cs.take a.length = a := by
  rw [← h, List.take_left]

theorem spells_of_hexadecimal {x : Char} (hx : x = 'x' ∨ x = 'X') {kind : Kind} {text : String}
    (htoken : (hexadecimal ('0' :: x :: r) r).token = some (kind, text)) :
    Spells (('0' :: x :: r).take (hexadecimal ('0' :: x :: r) r).width) kind text := by
  obtain ⟨suffix, rest, hrest, hsuffix, hwidth⟩ :=
    exists_suffixed hexSuffix? .integerLiteral (r.drop (r.takeWhile isHexDigit).length)
  have hr := takeWhile_append_drop isHexDigit r
  unfold hexadecimal at *
  simp only [hwidth] at *
  split at htoken
  · simp [bad] at htoken
  · rename_i hdigits
    rw [if_neg hdigits]
    split at htoken
    · simp [bad] at htoken
    · rename_i hword
      rw [if_neg hword]
      simp only [Option.some.injEq, Prod.mk.injEq] at htoken
      obtain ⟨rfl, rfl⟩ := htoken
      -- The prefix, the digits and the suffix are what was taken off the text.
      have happend : '0' :: x :: (r.takeWhile isHexDigit ++ suffix) ++ rest = '0' :: x :: r := by
        rw [List.cons_append, List.cons_append, List.append_assoc, ← hrest, hr]
      have htake := take_length_of_append happend
      have hlength : ('0' :: x :: (r.takeWhile isHexDigit ++ suffix)).length =
          (r.takeWhile isHexDigit).length + 2 + suffix.length := by
        simp only [List.length_cons, List.length_append]
        omega
      rw [hlength] at htake
      simp only [htake]
      refine .hexadecimal hx ?_ (fun _ => List.mem_takeWhile_imp) hsuffix
      intro hnil
      simp [hnil] at hdigits

theorem fractionOf_of_fraction (h : Fraction fraction)
    (hs : ∀ c, s.head? = some c → isDigit c = false ∧ c ≠ '.') :
    fractionOf (fraction ++ s) = fraction := by
  unfold fractionOf
  cases h with
  | none =>
    cases s with
    | nil => rfl
    | cons c s => simp [(hs c rfl).2]
  | point hdigits =>
    simp [takeWhile_append_of_fails hdigits fun c hc => (hs c hc).1]

theorem fraction_fractionOf (rest : List Char) : Fraction (fractionOf rest) := by
  unfold fractionOf
  split
  · exact .point (fun _ => List.mem_takeWhile_imp)
  · exact .none

theorem fractionOf_append_drop (rest : List Char) :
    fractionOf rest ++ rest.drop (fractionOf rest).length = rest := by
  unfold fractionOf
  split
  · rename_i hpoint
    obtain ⟨r, rfl⟩ := List.head?_eq_some_iff.1 (beq_iff_eq.1 hpoint)
    simpa using takeWhile_append_drop isDigit r
  · rfl

theorem isEmpty_fractionOf (rest : List Char) :
    (fractionOf rest).isEmpty = !(rest.head? == some '.') := by
  unfold fractionOf
  split <;> simp_all

theorem decimal_of_spells {whole : List Char} {kind : Kind} (hs : SetOff s)
    (hwhole : ∀ c ∈ whole, isDigit c = true) (hfraction : Fraction fraction)
    (hsuffix : Suffixed decimalSuffix? (plainKind fraction) suffix kind)
    (hkind : fraction ≠ [] → isIntegralSuffix kind = false) :
    decimal (whole ++ (fraction ++ (suffix ++ s))) =
      ⟨whole.length + fraction.length + suffix.length,
        some (kind, String.ofList (whole ++ fraction)), []⟩ := by
  have hnone := hs.no_suffix fun c hc => (isWordChar_of_decimalSuffix? hc).1
  have hpoint := head?_suffixed_beq hsuffix hs fun c hc => (isWordChar_of_decimalSuffix? hc).2.2.1
  have hdigit := fails_suffixed hsuffix (fun c hc => (isWordChar_of_decimalSuffix? hc).2.1)
    (hs.fails fun c hc => isGraphic_of_isHexDigit (isHexDigit_of_isDigit hc))
  -- Each part ends where its definition makes the reader stop.
  have htake : (whole ++ (fraction ++ (suffix ++ s))).takeWhile isDigit = whole := by
    apply takeWhile_append_of_fails hwhole
    cases hfraction with
    | none => exact hdigit
    | point hdigits =>
      intro c hc
      obtain rfl := Option.some.inj hc
      rfl
  have hfractionOf : fractionOf (fraction ++ (suffix ++ s)) = fraction := by
    apply fractionOf_of_fraction hfraction
    intro c hc
    refine ⟨hdigit c hc, ?_⟩
    rintro rfl
    simp [hc] at hpoint
  have hdrop : (whole ++ (fraction ++ (suffix ++ s))).drop
      (whole.length + fraction.length + suffix.length) = s := by
    rw [← List.append_assoc, ← List.append_assoc, ← List.length_append, ← List.length_append,
      List.drop_left]
  have hdotted : ((fraction ++ (suffix ++ s)).head? == some '.') = !fraction.isEmpty := by
    rw [← hfractionOf, isEmpty_fractionOf, hfractionOf, Bool.not_not]
  unfold decimal
  simp only [htake, List.drop_left, hfractionOf, width_of_suffixed hsuffix hnone, hdrop,
    hs.startsWord, hpoint, hdotted, Bool.and_false, Bool.false_or]
  have hgetD := getD_of_suffixed hsuffix hnone
  unfold plainKind at hgetD
  -- The suffix goes with the fraction: an integral one with none.
  have hfits : (!fraction.isEmpty && ((suffix ++ s).head?.bind decimalSuffix?).any isIntegralSuffix)
      = false := by
    cases hfound : (suffix ++ s).head?.bind decimalSuffix? with
    | none => simp
    | some found =>
      rw [hfound, Option.getD_some] at hgetD
      subst hgetD
      cases fraction with
      | nil => rfl
      | cons c fraction => simpa using hkind (by simp)
  rw [hfits, hgetD]
  rfl

theorem spells_of_decimal (hc : isDigit c = true) {kind : Kind} {text : String}
    (htoken : (decimal (c :: cs)).token = some (kind, text)) :
    Spells ((c :: cs).take (decimal (c :: cs)).width) kind text := by
  have hwhole := takeWhile_append_drop isDigit (c :: cs)
  have hne : (c :: cs).takeWhile isDigit ≠ [] := by simp [hc]
  unfold decimal at htoken ⊢
  dsimp only at htoken ⊢
  -- the text is cut into digits, fraction, suffix and rest, as the reading cuts it
  generalize (c :: cs).drop ((c :: cs).takeWhile isDigit).length = tail at *
  have hfraction := fractionOf_append_drop tail
  have hempty := isEmpty_fractionOf tail
  have hplain : plainKind (fractionOf tail) =
      if tail.head? == some '.' then .floatLiteral else .integerLiteral := by
    unfold plainKind
    rw [hempty, Bool.not_not]
  obtain ⟨suffix, rest, hrest, hsuffix, hwidth⟩ := exists_suffixed decimalSuffix?
    (plainKind (fractionOf tail)) (tail.drop (fractionOf tail).length)
  simp only [hwidth, ← hplain] at htoken ⊢
  split at htoken
  · simp [bad] at htoken
  · rename_i hpoints
    rw [if_neg hpoints]
    split at htoken
    · simp [bad] at htoken
    · rename_i hword
      rw [if_neg hword]
      simp only [Option.some.injEq, Prod.mk.injEq] at htoken
      obtain ⟨rfl, rfl⟩ := htoken
      have happend : (c :: cs).takeWhile isDigit ++ (fractionOf tail ++ suffix) ++
          rest = c :: cs := by
        rw [List.append_assoc, List.append_assoc, ← hrest, hfraction, hwhole]
      have htake := take_length_of_append happend
      rw [List.length_append, List.length_append, ← Nat.add_assoc] at htake
      simp only [htake]
      refine .decimal hne (fun _ => List.mem_takeWhile_imp) (fraction_fractionOf _) hsuffix ?_
      intro hpoint
      have hdotted : (tail.head? == some '.') = true := by
        rw [← Bool.not_not (tail.head? == some '.'), ← hempty]
        simp [hpoint]
      simp only [hdotted, Bool.true_and, Bool.or_eq_true, not_or, Bool.not_eq_true] at hword
      cases hfound : (tail.drop (fractionOf tail).length).head?.bind decimalSuffix? with
      | none => simp [plainKind, hpoint, isIntegralSuffix]
      | some found =>
        rw [hfound] at hword
        exact hword.2

/-! ### Names, operators and marks -/

section Word

variable {c : Char} {l : List Char} (hc : isWordStart c = true) (hl : ∀ d ∈ l, isWordChar d = true)
include hc hl

theorem isWordChar_of_mem_word : ∀ d ∈ c :: l, isWordChar d = true := by
  intro d hd
  rcases List.mem_cons.1 hd with rfl | hd
  · exact isWordChar_of_isWordStart hc
  · exact hl d hd

theorem takeWhile_word : (c :: l).takeWhile isWordChar = c :: l :=
  List.takeWhile_eq_self_iff.2 (isWordChar_of_mem_word hc hl)

theorem word_of_spells (hs : SetOff s) : word (c :: (l ++ s)) = word (c :: l) := by
  have htake := takeWhile_append_of_fails (isWordChar_of_mem_word hc hl)
    (hs.fails fun _ => isGraphic_of_isWordChar)
  unfold word
  rw [← List.cons_append, htake, takeWhile_word hc hl]

theorem width_word : (word (c :: l)).width = (c :: l).length := by
  unfold word
  rw [takeWhile_word hc hl]

end Word

theorem spells_of_word (hc : isWordStart c = true) {kind : Kind} {text : String}
    (htoken : (word (c :: cs)).token = some (kind, text)) :
    Spells ((c :: cs).take (word (c :: cs)).width) kind text := by
  have htake : (c :: cs).takeWhile isWordChar = c :: cs.takeWhile isWordChar := by
    rw [List.takeWhile_cons, if_pos (isWordChar_of_isWordStart hc)]
  have hsame : word (c :: cs.takeWhile isWordChar) = word (c :: cs) := by
    unfold word
    rw [← htake, List.takeWhile_idem]
  have hcover := take_length_of_append (takeWhile_append_drop isWordChar (c :: cs))
  show Spells ((c :: cs).take ((c :: cs).takeWhile isWordChar).length) kind text
  rw [hcover, htake]
  exact .word hc (fun _ => List.mem_takeWhile_imp) (hsame ▸ htoken)

/-- An operator or a mark is found where its spelling stands alone. -/
theorem operator?_operators : ∀ o ∈ operators, operator? o.1 = some (o.2, o.1.length) := by
  decide

/-- The spellings of operators and marks are visible. -/
theorem isGraphic_operators {o : List Char × Kind} (h : o ∈ operators) :
    ∀ c ∈ o.1, IsGraphic c := by
  have hall : ∀ o ∈ operators, o.1.all (fun c => 0x21 ≤ c.toNat && c.toNat ≤ 0x7E) = true := by
    decide
  intro c hc
  have hgraphic := List.all_eq_true.1 (hall o h) c hc
  simpa [IsGraphic] using hgraphic

theorem isPrefixOf_append_setOff {spelling : List Char} (hs : SetOff s)
    (h : ∀ c ∈ spelling, IsGraphic c) (cs : List Char) :
    spelling.isPrefixOf (cs ++ s) = spelling.isPrefixOf cs := by
  induction spelling generalizing cs with
  | nil => simp
  | cons d spelling ih =>
    simp only [List.mem_cons, forall_eq_or_imp] at h
    cases cs with
    | nil =>
      cases s with
      | nil => rfl
      | cons c s =>
        -- What follows starts with no character of an operator.
        have hne : d ≠ c := by
          rintro rfl
          exact hs.head?_ne h.1 rfl
        simp [List.isPrefixOf, hne]
    | cons c cs => simp [List.isPrefixOf, ih h.2]

theorem operator?_append_setOff (hs : SetOff s) (cs : List Char) :
    operator? (cs ++ s) = operator? cs := by
  unfold operator?
  congr 1
  apply List.find?_congr
  intro o ho
  exact isPrefixOf_append_setOff hs (isGraphic_operators ho) cs

theorem spells_of_operator {kind : Kind} {text : String}
    (htoken : (operator c cs).token = some (kind, text)) :
    Spells ((c :: cs).take (operator c cs).width) kind text := by
  unfold operator at htoken ⊢
  cases hfound : operator? (c :: cs) with
  | none => simp [hfound, bad] at htoken
  | some found =>
    obtain ⟨kind', width⟩ := found
    simp only [hfound, Option.some.injEq, Prod.mk.injEq] at htoken ⊢
    obtain ⟨rfl, rfl⟩ := htoken
    obtain ⟨⟨spelling, kind''⟩, hfind, heq⟩ := Option.map_eq_some_iff.1 hfound
    simp only [Prod.mk.injEq] at heq
    obtain ⟨rfl, rfl⟩ := heq
    have hahead := List.find?_some hfind
    obtain ⟨rest, hrest⟩ := List.isPrefixOf_iff_prefix.1 hahead
    rw [take_length_of_append hrest]
    exact .operator (List.mem_of_find?_eq_some hfind)

/-! ### Any token -/

theorem ne_of_isDigit (hc : isDigit c = true) : c ≠ '"' ∧ c ≠ '/' := by
  constructor
  · rintro rfl
    revert hc
    decide
  · rintro rfl
    revert hc
    decide

theorem ne_of_isWordStart (hc : isWordStart c = true) : c ≠ '"' ∧ c ≠ '/' ∧ isDigit c = false := by
  refine ⟨?_, ?_, ?_⟩
  · rintro rfl
    revert hc
    decide
  · rintro rfl
    revert hc
    decide
  · have hle : ∀ d : Char, d ≤ c ↔ d.toNat ≤ c.toNat := fun d => Iff.rfl
    have hge : ∀ d : Char, c ≤ d ↔ c.toNat ≤ d.toNat := fun d => Iff.rfl
    simp only [isWordStart, isAlpha_iff, Bool.or_eq_true, beq_iff_eq] at hc
    unfold isDigit decimalValue?
    rw [if_neg]
    · rfl
    · simp only [hle, hge, Char.reduceToNat]
      rcases hc with (hc | hc) | rfl
      · omega
      · omega
      · decide

/-- A decimal number does not begin as a hexadecimal one does. -/
theorem ne_of_mem_decimal {whole : List Char} {plain kind : Kind}
    (hwhole : ∀ c ∈ whole, isDigit c = true) (hfraction : Fraction fraction)
    (hsuffix : Suffixed decimalSuffix? plain suffix kind) :
    ∀ c ∈ whole ++ (fraction ++ suffix), c ≠ 'x' ∧ c ≠ 'X' := by
  have hdigit : ∀ c, isDigit c = true → c ≠ 'x' ∧ c ≠ 'X' := by
    intro c hc
    constructor
    · rintro rfl
      cases hc
    · rintro rfl
      cases hc
  intro c hc
  rcases List.mem_append.1 hc with hc | hc
  · exact hdigit c (hwhole c hc)
  rcases List.mem_append.1 hc with hc | hc
  · cases hfraction with
    | none => cases hc
    | point hdigits =>
      rcases List.mem_cons.1 hc with rfl | hc
      · decide
      · exact hdigit c (hdigits c hc)
  · cases hsuffix with
    | none => cases hc
    | letter hletter =>
      obtain rfl := List.mem_singleton.1 hc
      exact (isWordChar_of_decimalSuffix? (by simp [hletter])).2.2.2

theorem read_of_digit (hc : isDigit c = true) (hzero : cs.head? ≠ some 'x' ∧ cs.head? ≠ some 'X') :
    read c cs = decimal (c :: cs) := by
  obtain ⟨hquote, hslash⟩ := ne_of_isDigit hc
  have hgraphic := isGraphic_of_isHexDigit (isHexDigit_of_isDigit hc)
  rw [read_of_plain ⟨hgraphic.isBlank, hquote, fun h => absurd h hslash, fun _ => hzero⟩, if_pos hc]

theorem read_of_wordStart (hc : isWordStart c = true) (cs : List Char) :
    read c cs = word (c :: cs) := by
  obtain ⟨hquote, hslash, hdigit⟩ := ne_of_isWordStart hc
  have hgraphic := isGraphic_of_isWordChar (isWordChar_of_isWordStart hc)
  have hplain : Plain c cs := by
    refine ⟨hgraphic.isBlank, hquote, fun h => absurd h hslash, ?_⟩
    rintro rfl
    cases hdigit
  rw [read_of_plain hplain, if_neg (by simp [hdigit]), if_pos hc]

/-- How the spelling of an operator or a mark begins. -/
theorem head_of_operators {kind : Kind} (h : (c :: l, kind) ∈ operators) :
    c ≠ '"' ∧ c ≠ '0' ∧ isDigit c = false ∧ isWordStart c = false ∧
      (c = '/' → l.head? ≠ some '/' ∧ l.head? ≠ some '*') := by
  have hall : ∀ o ∈ operators, (o.1.head?.all fun c => c != '"' && c != '0' && !isDigit c &&
      !isWordStart c && (c != '/' || o.1.tail.head? != some '/' && o.1.tail.head? != some '*')) =
        true := by
    decide
  have hhead := hall _ h
  simp only [List.head?_cons, Option.all_some, List.tail_cons, Bool.and_eq_true, bne_iff_ne, ne_eq,
    Bool.not_eq_eq_eq_not, Bool.not_true, Bool.or_eq_true] at hhead
  obtain ⟨⟨⟨⟨hquote, hzero⟩, hdigit⟩, hword⟩, hslash⟩ := hhead
  exact ⟨hquote, hzero, hdigit, hword, fun hc => hslash.resolve_left fun hne => hne hc⟩

theorem read_of_operator {kind : Kind} (h : (c :: l, kind) ∈ operators) (hs : SetOff s) :
    read c (l ++ s) = operator c (l ++ s) := by
  obtain ⟨hquote, hzero, hdigit, hword, hslash⟩ := head_of_operators h
  have hgraphic := isGraphic_operators h c List.mem_cons_self
  have hplain : Plain c (l ++ s) := by
    refine ⟨hgraphic.isBlank, hquote, ?_, fun hc => absurd hc hzero⟩
    intro hc
    cases l with
    | nil => exact ⟨hs.head?_ne ⟨by decide, by decide⟩, hs.head?_ne ⟨by decide, by decide⟩⟩
    | cons d l => exact hslash hc
  rw [read_of_plain hplain, if_neg (by simp [hdigit]), if_neg (by simp [hword])]

/-- A spelling is read as its token, if a blank or the end of the text comes after it. -/
theorem read_of_spells {kind : Kind} {text : String} (h : Spells (c :: l) kind text)
    (hs : SetOff s) : read c (l ++ s) = ⟨(c :: l).length, some (kind, text), []⟩ := by
  generalize hcl : c :: l = cl at h
  cases h with
  | @string w t hwritten =>
    obtain ⟨rfl, rfl⟩ := List.cons.inj hcl
    have hquote : w ++ ['"'] ++ s = w ++ '"' :: s := by simp
    show string (w ++ ['"'] ++ s) = _
    rw [hquote, string_of_written hwritten]
    simp
  | @hexadecimal x digits suffix kind hx hne hdigits hsuffix =>
    obtain ⟨rfl, rfl⟩ := List.cons.inj hcl
    have hread : read '0' (x :: (digits ++ suffix) ++ s) =
        hexadecimal ('0' :: x :: (digits ++ (suffix ++ s))) (digits ++ (suffix ++ s)) := by
      rw [List.cons_append, List.append_assoc]
      rcases hx with rfl | rfl <;> rfl
    have hdrop : ('0' :: x :: (digits ++ (suffix ++ s))).drop (digits.length + 2 + suffix.length) =
        s := by
      have hlength : digits.length + 2 + suffix.length = (digits ++ suffix).length + 1 + 1 := by
        rw [List.length_append]
        omega
      rw [hlength, List.drop_succ_cons, List.drop_succ_cons, ← List.append_assoc, List.drop_left]
    rw [hread, hexadecimal_of_spells hs hne hdigits hsuffix hdrop]
    simp only [List.length_cons, List.length_append, mk.injEq, and_true]
    omega
  -- The first digit leads to a decimal number, as no `x` comes second.
  | @decimal whole fraction suffix kind hne hwhole hfraction hsuffix hkind =>
    have hc : isDigit c = true := by
      cases whole with
      | nil => exact absurd rfl hne
      | cons d whole =>
        obtain ⟨rfl, -⟩ := List.cons.inj hcl
        exact hwhole c List.mem_cons_self
    have hcs : c :: (l ++ s) = whole ++ (fraction ++ (suffix ++ s)) := by
      rw [← List.cons_append, hcl]
      simp
    have hletters := ne_of_mem_decimal hwhole hfraction hsuffix
    have hzero : (l ++ s).head? ≠ some 'x' ∧ (l ++ s).head? ≠ some 'X' := by
      rw [← hcl] at hletters
      cases l with
      | nil => exact ⟨hs.head?_ne ⟨by decide, by decide⟩, hs.head?_ne ⟨by decide, by decide⟩⟩
      | cons d l => simpa using hletters d (by simp)
    rw [read_of_digit hc hzero, hcs, decimal_of_spells hs hwhole hfraction hsuffix hkind]
    simp only [List.length_append, mk.injEq, and_true]
    omega
  | word hc hl htoken =>
    obtain ⟨rfl, rfl⟩ := List.cons.inj hcl
    rw [read_of_wordStart hc, word_of_spells hc hl hs, ← width_word hc hl, ← htoken]
    rfl
  -- Nothing longer is an operator where a blank follows.
  | operator hmem =>
    subst hcl
    have halone := operator?_operators _ hmem
    rw [read_of_operator hmem hs]
    unfold operator
    rw [← List.cons_append, operator?_append_setOff hs, halone]

/-- What is read as a token spells it, strings apart: their faults leave a token behind. -/
theorem spells_of_read_of_ne_quote (hquote : c ≠ '"') {kind : Kind} {text : String}
    (htoken : (read c cs).token = some (kind, text)) :
    Spells ((c :: cs).take (read c cs).width) kind text := by
  rcases read_cases c cs with hblank | hc | ⟨r, rfl, rfl | rfl⟩ | ⟨r, rfl, rfl | rfl⟩ | hplain
  · simp [read, hblank] at htoken
  · exact absurd hc hquote
  -- Comments make no token.
  · cases htoken
  · change (blockComment r).token = _ at htoken
    unfold blockComment at htoken
    split at htoken <;> cases htoken
  · exact spells_of_hexadecimal (.inl rfl) htoken
  · exact spells_of_hexadecimal (.inr rfl) htoken
  · rw [read_of_plain hplain] at htoken ⊢
    by_cases hdigit : isDigit c = true
    · rw [if_pos hdigit] at htoken ⊢
      exact spells_of_decimal hdigit htoken
    · rw [if_neg hdigit] at htoken ⊢
      by_cases hword : isWordStart c = true
      · rw [if_pos hword] at htoken ⊢
        exact spells_of_word hword htoken
      · rw [if_neg hword] at htoken ⊢
        exact spells_of_operator htoken

/-- What is read as a token without a fault spells it. -/
theorem spells_of_read {kind : Kind} {text : String}
    (htoken : (read c cs).token = some (kind, text)) (hfaults : (read c cs).faults = []) :
    Spells ((c :: cs).take (read c cs).width) kind text := by
  by_cases hquote : c = '"'
  · subst hquote
    exact spells_of_string htoken hfaults
  · exact spells_of_read_of_ne_quote hquote htoken

theorem Spells.ne_nil {kind : Kind} {text : String} (h : Spells l kind text) : l ≠ [] := by
  cases h with
  | string _ => simp
  | hexadecimal _ _ _ _ => simp
  | decimal hne _ _ _ _ => simp [hne]
  | word _ _ _ => simp
  | operator hmem =>
    have hmarks : ∀ o ∈ operators, o.1 ≠ [] := by decide
    exact hmarks _ hmem

end Reading

/-! ### Splitting -/

/-- A spelling at the start of a text is a lexeme, if it is set off from what follows. -/
theorem Lexeme.split_of_spells {l s : List Char} {kind : Kind} {text : String}
    (h : Reading.Spells l kind text) (hs : Reading.SetOff s) :
    split (l ++ s) = ⟨l, some (kind, text), []⟩ :: split s := by
  cases l with
  | nil => exact absurd rfl h.ne_nil
  | cons c l =>
    have hread := Reading.read_of_spells h hs
    rw [List.cons_append, split_cons, first, hread, ← List.cons_append, List.take_left,
      List.drop_left]

/-- The tokens of a text that spells one, and that there is nothing wrong with it. -/
theorem lex_of_spells {l : List Char} {kind : Kind} {text : String}
    (h : Reading.Spells l kind text) (flags : Flags) (file : String) :
    (lex (String.ofList l) flags file).tokens = [⟨kind, text, 1, 1, file⟩] ∧
      (lex (String.ofList l) flags file).log.items = [] := by
  have hsplit : Lexeme.split l = [⟨l, some (kind, text), []⟩] := by
    have hsplit := Lexeme.split_of_spells h Reading.setOff_nil
    rwa [List.append_nil] at hsplit
  constructor
  · simp [lex, hsplit, Lexeme.place, Lexeme.tokenAt]
  · simp [items_lex, hsplit, Lexeme.place, Lexeme.diagnosticsAt]

end StateScript
