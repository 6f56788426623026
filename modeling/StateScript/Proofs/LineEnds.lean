import Mathlib.Data.List.Find
import StateScript.Token.Lexer

/-! # Splitting a text at its line ends

  No lexeme but a block comment reaches over a newline: whatever is read ahead of a
  newline is read as if the text ended there. So the lexemes of two texts with a newline
  between them are those of the first, the newline, and those of the second, unless the
  first leaves a comment open. A fault in a line is no concern of the next lines, but
  for where they stand.
-/

namespace StateScript

namespace Reading

variable {c : Char} {cs r : List Char} {n width : Nat}

open Text

/-! ### What ends at a newline -/

/-- What no newline belongs to ends at a newline as it ends with the text. -/
theorem takeWhile_append_newline {p : Char → Bool} (hp : p '\n' = false) (cs b : List Char) :
    (cs ++ '\n' :: b).takeWhile p = cs.takeWhile p := by
  induction cs with
  | nil => simp [hp]
  | cons c cs ih => simp [List.takeWhile_cons, ih]

theorem length_takeWhile_le (p : Char → Bool) (cs : List Char) :
    (cs.takeWhile p).length ≤ cs.length :=
  (List.takeWhile_prefix p).length_le

/-- A question about the next character that a newline answers as the end of the text does. -/
theorem head?_append_newline {α : Type} (f : Option Char → α) (hf : f (some '\n') = f none)
    (cs b : List Char) : f (cs ++ '\n' :: b).head? = f cs.head? := by
  cases cs with
  | nil => exact hf
  | cons c cs => rfl

theorem startsWord_append_newline (cs b : List Char) :
    startsWord (cs ++ '\n' :: b) = startsWord cs := by
  cases cs with
  | nil => rfl
  | cons c cs => rfl

theorem bad_append_newline (h : width ≤ cs.length) (b : List Char) (code : Code)
    (message : String) : bad (cs ++ '\n' :: b) width code message = bad cs width code message := by
  unfold bad
  rw [List.drop_append_of_le_length h, takeWhile_append_newline (by decide)]

/-- A reading that covers at least `n` characters, and no more than there are. -/
def Covers (n : Nat) (cs : List Char) (reading : Reading) : Prop :=
  n ≤ reading.width ∧ reading.width ≤ cs.length

theorem Covers.ite {c : Prop} [Decidable c] {x y : Reading} (hx : Covers n cs x)
    (hy : Covers n cs y) : Covers n cs (if c then x else y) := by
  by_cases h : c
  · rw [if_pos h]
    exact hx
  · rw [if_neg h]
    exact hy

theorem covers_bad (hn : n ≤ width) (h : width ≤ cs.length) (code : Code) (message : String) :
    Covers n cs (bad cs width code message) := by
  have hrest := length_takeWhile_le (fun c => !isBlank c) (cs.drop width)
  simp only [List.length_drop] at hrest
  simp only [Covers, bad]
  omega

/-! ### Comments and strings -/

theorem lineComment_append_newline (cs b : List Char) :
    lineComment (cs ++ '\n' :: b) = lineComment cs := by
  unfold lineComment
  rw [takeWhile_append_newline (by decide)]

theorem covers_lineComment (r : List Char) :
    Covers 1 ('/' :: '/' :: r) (lineComment ('/' :: '/' :: r)) := by
  have hrest := length_takeWhile_le (fun c => c != '\n') ('/' :: '/' :: r)
  exact ⟨by simp [lineComment], hrest⟩

/-- A closed comment stays closed, whatever follows it. -/
theorem commentWidth?_append {depth n : Nat} (s : List Char) (h : commentWidth? depth r = some n) :
    commentWidth? depth (r ++ s) = some n := by
  fun_induction commentWidth? depth r generalizing n with
  | case1 depth r ih =>
    obtain ⟨m, hm, rfl⟩ := Option.map_eq_some_iff.1 h
    simp [commentWidth?, ih hm]
  | case2 r => simpa [commentWidth?] using h
  | case3 r depth ih =>
    obtain ⟨m, hm, rfl⟩ := Option.map_eq_some_iff.1 h
    simp [commentWidth?, ih hm]
  | case4 depth c r hopen hclose ih =>
    obtain ⟨m, hm, rfl⟩ := Option.map_eq_some_iff.1 h
    cases r with
    | nil => cases hm
    | cons d r =>
      -- the character after `c` is there, so `s` makes no new opener or closer of `c`
      have hopen' : ∀ r', c = '/' → d :: r ++ s = '*' :: r' → False := by
        intro r' hc hd
        exact hopen r hc (by rw [(List.cons.inj hd).1])
      have hclose' : ∀ r', c = '*' → d :: r ++ s = '/' :: r' → False := by
        intro r' hc hd
        exact hclose r hc (by rw [(List.cons.inj hd).1])
      rw [List.cons_append, commentWidth?.eq_4 _ _ _ hopen' hclose', ih hm, Option.map_some]
  | case5 => cases h

theorem commentWidth?_le {depth n : Nat} (h : commentWidth? depth r = some n) : n ≤ r.length := by
  fun_induction commentWidth? depth r generalizing n with
  | case1 depth r ih | case3 r depth ih | case4 depth c r hopen hclose ih =>
    obtain ⟨m, hm, rfl⟩ := Option.map_eq_some_iff.1 h
    have hle := ih hm
    simp only [List.length_cons]
    omega
  | case2 r =>
    simp only [Option.some.injEq] at h
    simp [← h]
  | case5 => cases h

theorem blockComment_append (s : List Char)
    (h : ∀ f ∈ (blockComment r).faults, f.code ≠ .unfinishedComment) :
    blockComment (r ++ s) = blockComment r := by
  unfold blockComment at *
  cases hwidth : commentWidth? 0 r with
  | none => simp [hwidth] at h
  | some n => rw [commentWidth?_append s hwidth]

theorem covers_blockComment (c d : Char) (r : List Char) :
    Covers 1 (c :: d :: r) (blockComment r) := by
  unfold blockComment
  cases hwidth : commentWidth? 0 r with
  | none => simp [Covers]
  | some n =>
    have hle := commentWidth?_le hwidth
    simp only [Covers, List.length_cons]
    omega

theorem stringRest_append_newline (k : Nat) (r b : List Char) :
    stringRest k (r ++ '\n' :: b) = stringRest k r := by
  fun_induction stringRest k r with
  | case7 k c r hc width text faults closed hrest hletter message ih =>
    rw [List.cons_append, List.cons_append, stringRest, ih, hrest, hletter]
    exact hc
  -- An ordinary character: a backslash would be an escape or stand at the end.
  | case8 k c r hquote hnewline hlast hline hescape width text faults closed hrest ih =>
    have hc : c ≠ '\\' := by
      intro hc
      cases r with
      | nil => exact hlast hc rfl
      | cons d r => exact hescape d r hc rfl
    rw [hrest] at ih
    simp [stringRest, hc, ih]
  | _ => simp_all [stringRest]

theorem stringRest_width (k : Nat) (r : List Char) : (stringRest k r).1 ≤ r.length := by
  fun_induction stringRest k r <;> simp_all

theorem string_append_newline (r b : List Char) : string (r ++ '\n' :: b) = string r := by
  unfold string
  rw [stringRest_append_newline]

theorem covers_string (c : Char) (r : List Char) : Covers 1 (c :: r) (string r) := by
  have hrest := stringRest_width 1 r
  unfold string
  dsimp only
  apply Covers.ite <;> simp only [Covers, List.length_cons] <;> omega

/-! ### Numbers -/

/-- Width of a number with its suffix, which takes one of the characters that are left. -/
theorem suffixed_le {rest : List Char} (suffix? : Char → Option Kind)
    (h : width + rest.length ≤ n) :
    width ≤ (if (rest.head?.bind suffix?).isSome then width + 1 else width) ∧
      (if (rest.head?.bind suffix?).isSome then width + 1 else width) ≤ n := by
  cases rest with
  | nil => simpa using h
  | cons c rest =>
    simp only [List.length_cons] at h
    split <;> omega

section Hexadecimal

variable {cs r : List Char} (h : cs.length = r.length + 2)
include h

theorem hexadecimal_digits : (r.takeWhile isHexDigit).length + 2 +
    (r.drop (r.takeWhile isHexDigit).length).length ≤ cs.length := by
  have hdigits := length_takeWhile_le isHexDigit r
  simp only [List.length_drop]
  omega

theorem hexadecimal_append_newline (b : List Char) :
    hexadecimal (cs ++ '\n' :: b) (r ++ '\n' :: b) = hexadecimal cs r := by
  have hdigits := hexadecimal_digits h
  have hwidth := (suffixed_le hexSuffix? hdigits).2
  unfold hexadecimal
  simp only [takeWhile_append_newline (p := isHexDigit) (by decide),
    List.drop_append_of_le_length (length_takeWhile_le isHexDigit r),
    head?_append_newline (· == some '.') (by decide),
    head?_append_newline (·.bind hexSuffix?) (by decide), startsWord_append_newline,
    List.drop_append_of_le_length hwidth, bad_append_newline hwidth,
    bad_append_newline (Nat.le_trans (Nat.le_add_right _ _) hdigits)]

theorem covers_hexadecimal : Covers 1 cs (hexadecimal cs r) := by
  have hdigits := hexadecimal_digits h
  have hwidth := suffixed_le hexSuffix? hdigits
  have hpos : 1 ≤ (r.takeWhile isHexDigit).length + 2 := by omega
  apply Covers.ite
  · exact covers_bad hpos (by omega) _ _
  · apply Covers.ite
    · exact covers_bad (by omega) hwidth.2 _ _
    · exact ⟨Nat.le_trans hpos hwidth.1, hwidth.2⟩

end Hexadecimal

theorem fractionOf_append_newline (rest b : List Char) :
    fractionOf (rest ++ '\n' :: b) = fractionOf rest := by
  unfold fractionOf
  cases rest with
  | nil => rfl
  | cons c rest => simp [takeWhile_append_newline (p := isDigit) (by decide)]

theorem length_fractionOf_le (rest : List Char) : (fractionOf rest).length ≤ rest.length := by
  unfold fractionOf
  cases rest with
  | nil => simp
  | cons c rest =>
    have hdigits := length_takeWhile_le isDigit rest
    split <;> simp [hdigits]

/-- The digits and the fraction of a number are part of its text. -/
theorem decimal_digits (cs : List Char) :
    (cs.takeWhile isDigit).length + (fractionOf (cs.drop (cs.takeWhile isDigit).length)).length +
      ((cs.drop (cs.takeWhile isDigit).length).drop
        (fractionOf (cs.drop (cs.takeWhile isDigit).length)).length).length ≤ cs.length := by
  have hwhole := length_takeWhile_le isDigit cs
  have hfraction := length_fractionOf_le (cs.drop (cs.takeWhile isDigit).length)
  simp only [List.length_drop] at *
  omega

theorem decimal_append_newline (cs b : List Char) : decimal (cs ++ '\n' :: b) = decimal cs := by
  have hdigits := decimal_digits cs
  have hwidth := (suffixed_le decimalSuffix? hdigits).2
  unfold decimal
  simp only [takeWhile_append_newline (p := isDigit) (by decide),
    List.drop_append_of_le_length (length_takeWhile_le isDigit cs), fractionOf_append_newline,
    List.drop_append_of_le_length (length_fractionOf_le _),
    head?_append_newline (· == some '.') (by decide),
    head?_append_newline (·.bind decimalSuffix?) (by decide), startsWord_append_newline,
    List.drop_append_of_le_length hwidth, bad_append_newline hwidth,
    bad_append_newline (Nat.le_trans (Nat.le_add_right _ _) hdigits)]

theorem covers_decimal (hc : isDigit c = true) (cs : List Char) :
    Covers 1 (c :: cs) (decimal (c :: cs)) := by
  have hdigits := decimal_digits (c :: cs)
  have hwidth := suffixed_le decimalSuffix? hdigits
  have hpos : 1 ≤ ((c :: cs).takeWhile isDigit).length := by simp [hc]
  apply Covers.ite
  · exact covers_bad (by omega) (by omega) _ _
  · apply Covers.ite
    · exact covers_bad (by omega) hwidth.2 _ _
    · exact ⟨by simp only; omega, hwidth.2⟩

/-! ### Names, operators and marks -/

theorem word_append_newline (cs b : List Char) : word (cs ++ '\n' :: b) = word cs := by
  unfold word
  rw [takeWhile_append_newline (by decide)]

theorem isWordChar_of_isWordStart (h : isWordStart c = true) : isWordChar c = true := by
  simp only [isWordStart, isWordChar, Char.isAlphanum, Bool.or_eq_true] at *
  rcases h with h | h <;> simp [h]

theorem covers_word (hc : isWordStart c = true) (cs : List Char) :
    Covers 1 (c :: cs) (word (c :: cs)) := by
  have hletter := isWordChar_of_isWordStart hc
  have hletters := length_takeWhile_le isWordChar (c :: cs)
  have hpos : 1 ≤ ((c :: cs).takeWhile isWordChar).length := by simp [hletter]
  exact ⟨hpos, hletters⟩

theorem isPrefixOf_append_newline {spelling : List Char} (h : '\n' ∉ spelling) (cs b : List Char) :
    spelling.isPrefixOf (cs ++ '\n' :: b) = spelling.isPrefixOf cs := by
  induction spelling generalizing cs with
  | nil => simp
  | cons d spelling ih =>
    simp only [List.mem_cons, not_or] at h
    cases cs with
    | nil => simp [List.isPrefixOf, Ne.symm h.1]
    | cons c cs => simp [List.isPrefixOf, ih h.2]

theorem operator?_append_newline (cs b : List Char) :
    operator? (cs ++ '\n' :: b) = operator? cs := by
  have hmarks : ∀ o ∈ operators, '\n' ∉ o.1 := by decide
  unfold operator?
  congr 1
  apply List.find?_congr
  intro o ho
  exact isPrefixOf_append_newline (hmarks o ho) cs b

theorem operator?_width {kind : Kind} (h : operator? cs = some (kind, width)) :
    1 ≤ width ∧ width ≤ cs.length := by
  have hmarks : ∀ o ∈ operators, 1 ≤ o.1.length := by decide
  obtain ⟨⟨spelling, kind'⟩, hfind, heq⟩ := Option.map_eq_some_iff.1 h
  simp only [Prod.mk.injEq] at heq
  obtain ⟨rfl, rfl⟩ := heq
  have hahead := List.find?_some hfind
  have hle := (List.isPrefixOf_iff_prefix.1 hahead).length_le
  exact ⟨hmarks _ (List.mem_of_find?_eq_some hfind), hle⟩

theorem operator_append_newline (c : Char) (cs b : List Char) :
    operator c (cs ++ '\n' :: b) = operator c cs := by
  unfold operator
  rw [← List.cons_append, operator?_append_newline, bad_append_newline (Nat.zero_le _)]

theorem covers_operator (hc : isBlank c = false) (cs : List Char) :
    Covers 1 (c :: cs) (operator c cs) := by
  unfold operator
  cases h : operator? (c :: cs) with
  | some found => exact operator?_width h
  | none =>
    have hrest := length_takeWhile_le (fun c => !isBlank c) cs
    simp only [Covers, bad, List.drop_zero, List.takeWhile_cons, hc, Bool.not_false, if_true,
      List.length_cons]
    omega

/-! ### Any lexeme -/

/-- A character that starts neither a comment nor a string nor a hexadecimal number. -/
structure Plain (c : Char) (cs : List Char) : Prop where
  blank : isBlank c = false
  quote : c ≠ '"'
  slash : c = '/' → cs.head? ≠ some '/' ∧ cs.head? ≠ some '*'
  zero : c = '0' → cs.head? ≠ some 'x' ∧ cs.head? ≠ some 'X'

theorem read_of_plain (h : Plain c cs) :
    read c cs = if isDigit c then decimal (c :: cs) else if isWordStart c then word (c :: cs)
      else operator c cs := by
  obtain ⟨hblank, hquote, hslash, hzero⟩ := h
  unfold read
  rw [hblank, if_neg Bool.false_ne_true]
  split <;> simp_all

theorem Plain.append_newline (h : Plain c cs) (b : List Char) : Plain c (cs ++ '\n' :: b) := by
  cases cs with
  | nil => exact ⟨h.blank, h.quote, fun _ => by simp, fun _ => by simp⟩
  | cons d cs => exact ⟨h.blank, h.quote, h.slash, h.zero⟩

/-- How a lexeme may begin. -/
theorem read_cases (c : Char) (cs : List Char) :
    isBlank c = true ∨ c = '"' ∨ (∃ r, c = '/' ∧ (cs = '/' :: r ∨ cs = '*' :: r)) ∨
      (∃ r, c = '0' ∧ (cs = 'x' :: r ∨ cs = 'X' :: r)) ∨ Plain c cs := by
  by_cases hblank : isBlank c = true
  · exact .inl hblank
  by_cases hquote : c = '"'
  · exact .inr (.inl hquote)
  by_cases hslash : ∃ r, c = '/' ∧ (cs = '/' :: r ∨ cs = '*' :: r)
  · exact .inr (.inr (.inl hslash))
  by_cases hzero : ∃ r, c = '0' ∧ (cs = 'x' :: r ∨ cs = 'X' :: r)
  · exact .inr (.inr (.inr (.inl hzero)))
  have ahead : ∀ d, cs.head? = some d → ∃ r, cs = d :: r := fun d => List.head?_eq_some_iff.1
  have hplain : Plain c cs :=
    { blank := by simpa using hblank
      quote := hquote
      slash := fun hc =>
        ⟨fun h => hslash ((ahead _ h).imp fun r hr => ⟨hc, .inl hr⟩),
          fun h => hslash ((ahead _ h).imp fun r hr => ⟨hc, .inr hr⟩)⟩
      zero := fun hc =>
        ⟨fun h => hzero ((ahead _ h).imp fun r hr => ⟨hc, .inl hr⟩),
          fun h => hzero ((ahead _ h).imp fun r hr => ⟨hc, .inr hr⟩)⟩ }
  exact .inr (.inr (.inr (.inr hplain)))

/-- Whatever stands before a newline is read as if the text ended there. -/
theorem read_append_newline (b : List Char)
    (h : ∀ f ∈ (read c cs).faults, f.code ≠ .unfinishedComment) :
    read c (cs ++ '\n' :: b) = read c cs := by
  rcases read_cases c cs with hblank | rfl | ⟨r, rfl, rfl | rfl⟩ | ⟨r, rfl, rfl | rfl⟩ | hplain
  · simp [read, hblank]
  · exact string_append_newline cs b
  · exact lineComment_append_newline ('/' :: '/' :: r) b
  · exact blockComment_append _ h
  · have hlength : ('0' :: 'x' :: r).length = r.length + 2 := rfl
    exact hexadecimal_append_newline hlength b
  · have hlength : ('0' :: 'X' :: r).length = r.length + 2 := rfl
    exact hexadecimal_append_newline hlength b
  · rw [read_of_plain hplain, read_of_plain (hplain.append_newline b)]
    simp only [← List.cons_append, decimal_append_newline, word_append_newline,
      operator_append_newline]

theorem covers_read (c : Char) (cs : List Char) : Covers 1 (c :: cs) (read c cs) := by
  rcases read_cases c cs with hblank | rfl | ⟨r, rfl, rfl | rfl⟩ | ⟨r, rfl, rfl | rfl⟩ | hplain
  · simp [read, hblank, Covers]
  · exact covers_string '"' cs
  · exact covers_lineComment r
  · exact covers_blockComment '/' '*' r
  · exact covers_hexadecimal rfl
  · exact covers_hexadecimal rfl
  · rw [read_of_plain hplain]
    by_cases hdigit : isDigit c = true
    · rw [if_pos hdigit]
      exact covers_decimal hdigit cs
    · rw [if_neg hdigit]
      by_cases hword : isWordStart c = true
      · rw [if_pos hword]
        exact covers_word hword cs
      · rw [if_neg hword]
        exact covers_operator hplain.blank cs

end Reading

/-! ### Splitting -/

namespace Lexeme

/-- The first lexeme of a text. -/
def first (c : Char) (cs : List Char) : Lexeme :=
  ⟨(c :: cs).take (Reading.read c cs).width, (Reading.read c cs).token, (Reading.read c cs).faults⟩

theorem splitWithin_eq {fuel : Nat} {cs : List Char} (h : cs.length ≤ fuel) :
    splitWithin fuel cs = split cs := by
  induction fuel using Nat.strongRecOn generalizing cs with
  | ind fuel ih =>
    cases cs with
    | nil => cases fuel <;> rfl
    | cons c cs =>
      cases fuel with
      | zero => cases h
      | succ fuel =>
        -- both go on with a shorter text, for which either fuel is enough
        have hwidth := (Reading.covers_read c cs).1
        have hshort : ((c :: cs).drop (Reading.read c cs).width).length ≤ cs.length := by
          simp only [List.length_drop, List.length_cons]
          omega
        simp only [List.length_cons] at h
        simp only [split, List.length_cons, splitWithin]
        rw [ih fuel (by omega) (by omega)]
        rcases Nat.lt_or_ge cs.length (fuel + 1) with hlt | hge
        · rw [ih cs.length hlt hshort]
        · omega

theorem split_cons (c : Char) (cs : List Char) :
    split (c :: cs) = first c cs :: split ((c :: cs).drop (Reading.read c cs).width) := by
  have hwidth := (Reading.covers_read c cs).1
  have hshort : ((c :: cs).drop (Reading.read c cs).width).length ≤ cs.length := by
    simp only [List.length_drop, List.length_cons]
    omega
  rw [← splitWithin_eq hshort]
  rfl

/-- Nothing of a text is lost. -/
theorem flatMap_chars_split (cs : List Char) : (split cs).flatMap (·.chars) = cs := by
  match cs with
  | [] => rfl
  | c :: cs =>
    have hwidth := (Reading.covers_read c cs).1
    rw [split_cons, List.flatMap_cons, flatMap_chars_split]
    exact List.take_append_drop _ _
termination_by cs.length
decreasing_by
  simp only [List.length_drop, List.length_cons]
  omega

/-- The lexeme of a newline. -/
def newline : Lexeme := ⟨['\n'], none, []⟩

theorem split_append_newline (cs b : List Char)
    (h : ∀ x ∈ split cs, ∀ f ∈ x.faults, f.code ≠ .unfinishedComment) :
    split (cs ++ '\n' :: b) = split cs ++ newline :: split b := by
  match cs with
  | [] =>
    rw [List.nil_append, split_cons]
    rfl
  | c :: cs =>
    obtain ⟨hwidth, hle⟩ := Reading.covers_read c cs
    rw [split_cons] at h
    -- The first item ends where it did, and the rest is shorter.
    have hread : Reading.read c (cs ++ '\n' :: b) = Reading.read c cs :=
      Reading.read_append_newline b (h _ List.mem_cons_self)
    have hfirst : first c (cs ++ '\n' :: b) = first c cs := by
      unfold first
      rw [hread, ← List.cons_append, List.take_append_of_le_length hle]
    have hrest := split_append_newline ((c :: cs).drop (Reading.read c cs).width) b
      fun x hx => h x (List.mem_cons_of_mem _ hx)
    rw [List.cons_append, split_cons, hfirst, hread, ← List.cons_append,
      List.drop_append_of_le_length hle, hrest, split_cons c cs, List.cons_append]
termination_by cs.length
decreasing_by
  simp only [List.length_drop, List.length_cons]
  omega

end Lexeme

/-! ### Positions -/

namespace Position

/-- The same column, some lines further down. -/
def down (p : Position) (n : Nat) : Position := ⟨p.line + n, p.column⟩

theorem after_down (p : Position) (n : Nat) (c : Char) :
    (p.down n).after c = (p.after c).down n := by
  unfold after down
  split
  · simp only [mk.injEq, and_true]
    omega
  · rfl

theorem afterAll_down (p : Position) (n : Nat) (cs : List Char) :
    (p.down n).afterAll cs = (p.afterAll cs).down n := by
  unfold afterAll
  induction cs generalizing p with
  | nil => rfl
  | cons c cs ih => rw [List.foldl_cons, List.foldl_cons, after_down, ih]

theorem afterAll_append (p : Position) (cs ds : List Char) :
    p.afterAll (cs ++ ds) = (p.afterAll cs).afterAll ds :=
  List.foldl_append

theorem line_afterAll (p : Position) (cs : List Char) :
    (p.afterAll cs).line = p.line + cs.count '\n' := by
  unfold afterAll
  induction cs generalizing p with
  | nil => rfl
  | cons c cs ih =>
    rw [List.foldl_cons, ih, List.count_cons, after]
    split
    · simp_all
      omega
    · simp_all

end Position

namespace Lexeme

theorem place_append (p : Position) (xs ys : List Lexeme) :
    place p (xs ++ ys) = place p xs ++ place (p.afterAll (xs.flatMap (·.chars))) ys := by
  induction xs generalizing p with
  | nil => rfl
  | cons x xs ih =>
    rw [List.cons_append, place, place, ih, List.flatMap_cons, Position.afterAll_append]
    rfl

theorem place_down (p : Position) (n : Nat) (xs : List Lexeme) :
    place (p.down n) xs = (place p xs).map fun (q, x) => (q.down n, x) := by
  induction xs generalizing p with
  | nil => rfl
  | cons x xs ih => rw [place, place, Position.afterAll_down, ih, List.map_cons]

/-- Where the lexemes of two texts with a newline between them stand. -/
theorem place_split_append_newline (cs b : List Char)
    (h : ∀ x ∈ split cs, ∀ f ∈ x.faults, f.code ≠ .unfinishedComment) :
    place {} (split (cs ++ '\n' :: b)) =
      place {} (split cs) ++ (Position.afterAll {} cs, newline) ::
        (place {} (split b)).map fun (q, x) => (q.down (cs.count '\n' + 1), x) := by
  have hnext : (Position.afterAll {} cs).afterAll newline.chars =
      Position.down {} (cs.count '\n' + 1) := by
    have hline : (Position.afterAll {} cs).line = 1 + cs.count '\n' := Position.line_afterAll {} cs
    show (⟨(Position.afterAll {} cs).line + 1, 1⟩ : Position) = ⟨1 + (cs.count '\n' + 1), 1⟩
    rw [hline, Nat.add_assoc]
  rw [split_append_newline cs b h, place_append, flatMap_chars_split, place, hnext, place_down]

theorem exists_place {p : Position} {x : Lexeme} {xs : List Lexeme} (h : x ∈ xs) :
    ∃ q, (q, x) ∈ place p xs := by
  induction xs generalizing p with
  | nil => cases h
  | cons y xs ih =>
    rcases List.mem_cons.1 h with rfl | h
    · exact ⟨p, List.mem_cons_self⟩
    · obtain ⟨q, hq⟩ := ih h
      exact ⟨q, List.mem_cons_of_mem _ hq⟩

theorem tokenAt_newline (file : String) (p : Position) : newline.tokenAt file p = none := rfl

theorem diagnosticsAt_newline (file : String) (p : Position) :
    newline.diagnosticsAt file p = [] := rfl

theorem tokenAt_down (file : String) (p : Position) (n : Nat) (x : Lexeme) :
    x.tokenAt file (p.down n) = (x.tokenAt file p).map fun t => { t with line := t.line + n } := by
  simp [tokenAt, Position.down, Function.comp_def]

theorem diagnosticsAt_down (file : String) (p : Position) (n : Nat) (x : Lexeme) :
    x.diagnosticsAt file (p.down n) =
      (x.diagnosticsAt file p).map fun d => { d with line := d.line + n } := by
  simp [diagnosticsAt, Position.down, Function.comp_def]

end Lexeme

/-! ### Tokens and findings -/

/-- The findings about a text are errors as they stand: no switch makes more of them. -/
theorem items_lex (source : String) (flags : Flags) (file : String) :
    (lex source flags file).log.items = (Lexeme.place {} (Lexeme.split source.toList)).flatMap
      fun (p, x) => x.diagnosticsAt file p := by
  have herror : ∀ d ∈ (Lexeme.place {} (Lexeme.split source.toList)).flatMap
      (fun (p, x) => x.diagnosticsAt file p),
      { d with level := Log.escalate flags d.level } = d := by
    intro d hd
    obtain ⟨⟨p, x⟩, -, hd⟩ := List.mem_flatMap.1 hd
    obtain ⟨f, -, rfl⟩ := List.mem_map.1 hd
    rfl
  unfold lex
  rw [Log.items_pushAll]
  exact (List.map_congr_left herror).trans (List.map_id _)

/-- The tokens of two texts with a newline between them are those of both, and so are the findings
    about them; what comes from the second stands as many lines further down as there are newlines
    before it. -/
theorem lex_append_newline (a b : String) (flags : Flags) (file : String)
    (h : ∀ d ∈ (lex a flags file).log.items, d.code ≠ .unfinishedComment) :
    (lex (a ++ "\n" ++ b) flags file).tokens = (lex a flags file).tokens ++
        (lex b flags file).tokens.map
          (fun t => { t with line := t.line + (a.toList.count '\n' + 1) }) ∧
      (lex (a ++ "\n" ++ b) flags file).log.items = (lex a flags file).log.items ++
        (lex b flags file).log.items.map
          (fun d => { d with line := d.line + (a.toList.count '\n' + 1) }) := by
  have hchars : (a ++ "\n" ++ b).toList = a.toList ++ '\n' :: b.toList := by simp
  -- No comment is left open at the line break.
  have hclosed : ∀ x ∈ Lexeme.split a.toList, ∀ f ∈ x.faults, f.code ≠ .unfinishedComment := by
    intro x hx f hf
    obtain ⟨p, hp⟩ := Lexeme.exists_place (p := {}) hx
    rw [items_lex] at h
    exact h _ (List.mem_flatMap.2 ⟨_, hp, List.mem_map.2 ⟨f, hf, rfl⟩⟩)
  have hplace := Lexeme.place_split_append_newline a.toList b.toList hclosed
  constructor
  · simp only [lex, hchars, hplace, List.filterMap_append, List.filterMap_cons, List.filterMap_map,
      List.map_filterMap, Function.comp_def, Lexeme.tokenAt_newline, Lexeme.tokenAt_down]
  · simp only [items_lex, hchars, hplace, List.flatMap_append, List.flatMap_cons, List.flatMap_map,
      List.map_flatMap, Lexeme.diagnosticsAt_newline, Lexeme.diagnosticsAt_down, List.nil_append]

/-- A string that a backslash leaves open is no concern of the next line. -/
theorem lex_append_newline_openString :
    (∀ d ∈ (lex "s = \"ab\\" {} "a").log.items, d.code ≠ .unfinishedComment) ∧
      (lex ("s = \"ab\\" ++ "\n" ++ "/* c */ t $") {} "a").tokens =
        (lex "s = \"ab\\" {} "a").tokens ++ (lex "/* c */ t $" {} "a").tokens.map
          (fun t => { t with line := t.line + ("s = \"ab\\".toList.count '\n' + 1) }) := by
  have h : ∀ d ∈ (lex "s = \"ab\\" {} "a").log.items, d.code ≠ .unfinishedComment := by
    decide +kernel
  exact ⟨h, (lex_append_newline _ _ {} "a" h).1⟩

end StateScript
