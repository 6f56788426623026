import StateScript.Proofs.Spelling

/-! # Tokens written out and read again

  A token's rendering spells the token: it puts back the quotes and escapes of a string,
  and the suffix that gives a number its kind. Renderings with blanks between them are
  read one by one, so tokens that are written out and read again are the same tokens.
-/

namespace StateScript

open Text

/-! ### One token -/

namespace Reading

variable {c : Char} {t : Token}

theorem written_escapeChars (cs : List Char) : Written (escapeChars cs) cs := by
  induction cs with
  | nil => exact .nil
  | cons c cs ih =>
    unfold escapeChars at ih ⊢
    rw [List.flatMap_cons]
    cases hletter : escapeLetter? c with
    | some letter => exact .escape (unescapeLetter?_of_escapeLetter? hletter) ih
    | none =>
      -- the characters that end a string or start an escape have escapes of their own
      have hne : c ≠ '"' ∧ c ≠ '\n' ∧ c ≠ '\\' := by
        refine ⟨?_, ?_, ?_⟩ <;> rintro rfl <;> cases hletter
      exact .plain hne.1 hne.2.1 hne.2.2 ih

theorem spells_string (x : String) :
    Spells ("\"" ++ escape x ++ "\"").toList .stringLiteral x := by
  have hspells := Spells.string (written_escapeChars x.toList)
  rw [String.ofList_toList] at hspells
  simpa [escape] using hspells

/-- A token of a kind that has one spelling is rendered by its text. -/
theorem render_of_symbol? (h : t.kind.symbol?.isSome = true) : t.render = t.text := by
  obtain ⟨kind, text, line, offset, file⟩ := t
  cases kind <;> first | rfl | cases h

theorem isSome_symbol?_of_isKeyword {kind : Kind} (h : kind.isKeyword = true) :
    kind.symbol?.isSome = true := by
  unfold Kind.isKeyword at h
  split at h
  · simp [*]
  · cases h

theorem symbol?_operators : ∀ o ∈ operators, o.2.symbol? = some (String.ofList o.1) := by
  decide

theorem kind_of_ofWord? {letters : List Char} {kind : Kind} (h : Kind.ofWord? letters = some kind) :
    kind = .booleanLiteral ∧ (Kind.foldCase letters = "true" ∨ Kind.foldCase letters = "false") ∨
      kind.isKeyword = true := by
  unfold Kind.ofWord? at h
  dsimp only at h
  split at h
  · rename_i hfolded
    obtain rfl := Option.some.inj h
    exact .inl ⟨rfl, hfolded⟩
  · have hmem := List.mem_of_find?_eq_some h
    exact .inr (List.mem_filter.1 hmem).2

theorem kind_of_hexSuffix? {kind : Kind} (h : hexSuffix? c = some kind) :
    kind = .longLiteral ∨ kind = .shortLiteral := by
  unfold hexSuffix? at h
  repeat' split at h
  all_goals simp_all

theorem kind_of_decimalSuffix? {kind : Kind} (h : decimalSuffix? c = some kind) :
    kind = .floatLiteral ∨ kind = .doubleLiteral ∨ kind = .longLiteral ∨ kind = .shortLiteral ∨
      kind = .byteLiteral := by
  unfold decimalSuffix? at h
  repeat' split at h
  all_goals simp_all

section Numbers

variable {suffix : List Char} {t : Token}

theorem spells_render_hexadecimal {digits : List Char} (hne : digits ≠ [])
    (hdigits : ∀ c ∈ digits, isHexDigit c = true)
    (hsuffix : Suffixed hexSuffix? .integerLiteral suffix t.kind)
    (htext : t.text = "0x" ++ String.ofList digits) : Spells t.render.toList t.kind t.text := by
  have hspells : ∀ suffix kind, Suffixed hexSuffix? .integerLiteral suffix kind →
      Spells (t.text ++ String.ofList suffix).toList kind t.text := by
    intro suffix kind hsuffix
    have hspells := Spells.hexadecimal (.inl rfl) hne hdigits hsuffix
    rw [htext]
    simpa using hspells
  obtain ⟨kind, text, line, offset, file⟩ := t
  cases hsuffix with
  | none => simpa [Token.render] using hspells [] _ .none
  -- The suffix is written in lower case.
  | letter hc =>
    obtain rfl | rfl := kind_of_hexSuffix? hc
    · exact hspells ['l'] _ (.letter rfl)
    · exact hspells ['s'] _ (.letter rfl)

/-- A number has a radix point in it if it has a fraction. -/
theorem contains_point {whole fraction : List Char} (hwhole : ∀ c ∈ whole, isDigit c = true)
    (hfraction : Fraction fraction) : (whole ++ fraction).contains '.' = !fraction.isEmpty := by
  have hdigits : '.' ∉ whole := by
    intro hmem
    have hpoint := hwhole _ hmem
    revert hpoint
    decide
  cases hfraction with
  | none => simpa using hdigits
  | point _ => simp

theorem spells_render_decimal {whole fraction : List Char} (hne : whole ≠ [])
    (hwhole : ∀ c ∈ whole, isDigit c = true) (hfraction : Fraction fraction)
    (hsuffix : Suffixed decimalSuffix? (plainKind fraction) suffix t.kind)
    (hkind : fraction ≠ [] → isIntegralSuffix t.kind = false)
    (htext : t.text = String.ofList (whole ++ fraction)) :
    Spells t.render.toList t.kind t.text := by
  have hspells : ∀ suffix kind, Suffixed decimalSuffix? (plainKind fraction) suffix kind →
      (fraction ≠ [] → isIntegralSuffix kind = false) →
      Spells (t.text ++ String.ofList suffix).toList kind t.text := by
    intro suffix kind hsuffix hkind
    have hspells := Spells.decimal hne hwhole hfraction hsuffix hkind
    rw [htext]
    simpa using hspells
  have hbare : Spells t.text.toList (plainKind fraction) t.text := by
    have hplain : isIntegralSuffix (plainKind fraction) = false := by cases hfraction <;> rfl
    simpa using hspells [] _ .none fun _ => hplain
  -- A float without a point needs its letter, else it would be an integer.
  have hfloat : Spells (if t.text.toList.contains '.' then t.text else t.text ++ "f").toList
      .floatLiteral t.text := by
    rw [htext, String.toList_ofList, contains_point hwhole hfraction, ← htext]
    cases hfraction with
    | none => exact hspells ['f'] _ (.letter rfl) (fun h => absurd rfl h)
    | point _ => exact hbare
  obtain ⟨kind, text, line, offset, file⟩ := t
  generalize hplain : plainKind fraction = plain at hsuffix
  cases hsuffix with
  | none =>
    subst hplain
    cases hfraction with
    | none => exact hbare
    | point _ => exact hfloat
  | letter hc =>
    obtain rfl | rfl | rfl | rfl | rfl := kind_of_decimalSuffix? hc
    · exact hfloat
    · exact hspells ['d'] _ (.letter rfl) hkind
    · exact hspells ['l'] _ (.letter rfl) hkind
    · exact hspells ['s'] _ (.letter rfl) hkind
    · exact hspells ['b'] _ (.letter rfl) hkind

end Numbers

theorem spells_boolean {s : String} (h : s = "true" ∨ s = "false") :
    Spells s.toList .booleanLiteral s := by
  obtain rfl | rfl := h
  · exact .word rfl (List.all_eq_true.1 rfl) (by decide +kernel)
  · exact .word rfl (List.all_eq_true.1 rfl) (by decide +kernel)

theorem spells_render_word {l : List Char} (hc : isWordStart c = true)
    (hl : ∀ d ∈ l, isWordChar d = true) (htoken : (word (c :: l)).token = some (t.kind, t.text)) :
    Spells t.render.toList t.kind t.text := by
  have hspells := Spells.word hc hl htoken
  unfold word at htoken
  rw [takeWhile_word hc hl] at htoken
  obtain ⟨kind, text, line, offset, file⟩ := t
  -- A word is a name, a truth value or a keyword.
  cases hword : Kind.ofWord? (c :: l) with
  | none =>
    simp only [hword, Option.some.injEq, Prod.mk.injEq] at htoken
    obtain ⟨rfl, rfl⟩ := htoken
    simpa [Token.render] using hspells
  | some found =>
    rcases kind_of_ofWord? hword with ⟨rfl, hfolded⟩ | hkeyword
    · simp only [hword, Option.some.injEq, Prod.mk.injEq] at htoken
      obtain ⟨rfl, rfl⟩ := htoken
      exact spells_boolean hfolded
    · have hne : found ≠ .booleanLiteral := by
        rintro rfl
        cases hkeyword
      simp only [hword, Option.some.injEq, Prod.mk.injEq] at htoken
      obtain ⟨rfl, rfl⟩ := htoken
      rw [render_of_symbol? (isSome_symbol?_of_isKeyword hkeyword)]
      simpa using hspells

/-- Any spelling of a token can be replaced by the rendering of the token. -/
theorem spells_render {l : List Char} (h : Spells l t.kind t.text) :
    Spells t.render.toList t.kind t.text := by
  obtain ⟨kind, text, line, offset, file⟩ := t
  change Spells l kind text at h
  cases h with
  | string hwritten => exact spells_string _
  | hexadecimal _ hne hdigits hsuffix => exact spells_render_hexadecimal hne hdigits hsuffix rfl
  | decimal hne hwhole hfraction hsuffix hkind =>
    exact spells_render_decimal hne hwhole hfraction hsuffix hkind rfl
  | word hc hl htoken => exact spells_render_word hc hl htoken
  | operator hmem =>
    have hsymbol := symbol?_operators _ hmem
    have hspells := Spells.operator hmem
    rw [render_of_symbol? (by simp [hsymbol])]
    simpa [hsymbol] using hspells

/-- A token that was read has a spelling, whatever is wrong with the text it was read from. -/
theorem exists_spells {cs : List Char} {kind : Kind} {text : String}
    (h : (read c cs).token = some (kind, text)) : ∃ l, Spells l kind text := by
  by_cases hquote : c = '"'
  · subst hquote
    change (string cs).token = _ at h
    have hkind : kind = .stringLiteral := by
      unfold string at h
      dsimp only at h
      split at h
      · simp only [Option.some.injEq, Prod.mk.injEq] at h
        exact h.1.symm
      · cases h
    subst hkind
    exact ⟨_, spells_string text⟩
  · exact ⟨_, spells_of_read_of_ne_quote hquote h⟩

end Reading

/-! ### All tokens of a text -/

namespace Lexeme

theorem exists_first {x : Lexeme} (cs : List Char) (h : x ∈ split cs) : ∃ c r, x = first c r := by
  match cs with
  | [] => cases h
  | c :: cs =>
    have hwidth := (Reading.covers_read c cs).1
    rw [split_cons] at h
    rcases List.mem_cons.1 h with rfl | h
    · exact ⟨c, cs, rfl⟩
    · exact exists_first _ h
termination_by cs.length
decreasing_by
  simp only [List.length_drop, List.length_cons]
  omega

/-- Kinds and texts of tokens do not depend on where the lexemes stand. -/
theorem map_tokenAt_place (file : String) (p : Position) (xs : List Lexeme) :
    ((place p xs).filterMap fun (p, x) => x.tokenAt file p).map (fun t => (t.kind, t.text)) =
      xs.filterMap (·.token) := by
  induction xs generalizing p with
  | nil => rfl
  | cons x xs ih =>
    obtain ⟨chars, token, faults⟩ := x
    cases token with
    | none => simpa [place, tokenAt] using ih _
    | some found => simpa [place, tokenAt] using ih _

theorem mem_of_mem_place {p q : Position} {x : Lexeme} {xs : List Lexeme}
    (h : (q, x) ∈ place p xs) : x ∈ xs := by
  induction xs generalizing p with
  | nil => cases h
  | cons y xs ih =>
    rcases List.mem_cons.1 h with heq | h
    · exact List.mem_cons.2 (.inl (Prod.mk.inj heq).2)
    · exact List.mem_cons_of_mem _ (ih h)

theorem diagnosticsAt_place (file : String) (p : Position) {xs : List Lexeme}
    (h : ∀ x ∈ xs, x.faults = []) :
    ((place p xs).flatMap fun (p, x) => x.diagnosticsAt file p) = [] := by
  rw [List.flatMap_eq_nil_iff]
  intro (q, x) hx
  simp [diagnosticsAt, h x (mem_of_mem_place hx)]

/-- The lexeme of a blank. -/
def space : Lexeme := ⟨[' '], none, []⟩

/-- Tokens whose renderings stand apart by blanks are read one by one. -/
theorem split_intercalate {ts : List Token}
    (h : ∀ t ∈ ts, Reading.Spells t.render.toList t.kind t.text) :
    (split ([' '].intercalate (ts.map fun t => t.render.toList))).filterMap (·.token) =
        ts.map (fun t => (t.kind, t.text)) ∧
      ∀ x ∈ split ([' '].intercalate (ts.map fun t => t.render.toList)), x.faults = [] := by
  induction ts with
  | nil => simp [split, splitWithin]
  | cons t ts ih =>
    simp only [List.mem_cons, forall_eq_or_imp] at h
    obtain ⟨ht, hts⟩ := h
    cases ts with
    | nil =>
      have hsplit := split_of_spells ht Reading.setOff_nil
      rw [List.append_nil] at hsplit
      simp [hsplit, show split [] = [] from rfl]
    | cons u us =>
      have hblank : Text.isBlank ' ' = true := by decide
      -- A blank sets the token off from the next one.
      have hsplit := fun s => split_of_spells ht (Reading.setOff_blank hblank s)
      have hspace : ∀ s, split (' ' :: s) = space :: split s := by
        intro s
        rw [split_cons]
        rfl
      obtain ⟨htokens, hfaults⟩ := ih hts
      simp only [List.map_cons] at htokens hfaults ⊢
      rw [List.intercalate_cons_cons, List.append_assoc, List.singleton_append, hsplit, hspace]
      constructor
      · simpa [space] using htokens
      · simpa [space] using hfaults

end Lexeme

/-- Tokens of a text, written out with blanks between them and read again, are the same tokens
    and nothing is wrong with them; and any text at all can be written out as a string. -/
theorem lex_render (source : String) (flags : Flags) (file : String) :
    ((lex (" ".intercalate ((lex source flags file).tokens.map Token.render)) flags
      file).log.items =
        [] ∧
      (lex (" ".intercalate ((lex source flags file).tokens.map Token.render)) flags
        file).tokens.map
          (fun t => (t.kind, t.text)) =
        (lex source flags file).tokens.map fun t => (t.kind, t.text)) ∧
    ∀ (x : String) (line offset : Nat) (place : String),
      (lex (Token.mk .stringLiteral x line offset place).render flags file).log.items = [] ∧
      (lex (Token.mk .stringLiteral x line offset place).render flags file).tokens.map
          (fun t => (t.kind, t.text)) = [(.stringLiteral, x)] := by
  constructor
  -- Whatever text a token was read from, its rendering is a spelling of it.
  · have hspells : ∀ t ∈ (lex source flags file).tokens,
        Reading.Spells t.render.toList t.kind t.text := by
      intro t ht
      obtain ⟨⟨p, x⟩, hx, htoken⟩ := List.mem_filterMap.1 ht
      obtain ⟨c, r, rfl⟩ := Lexeme.exists_first _ (Lexeme.mem_of_mem_place hx)
      obtain ⟨⟨kind, text⟩, hread, rfl⟩ := Option.map_eq_some_iff.1 htoken
      obtain ⟨l, hl⟩ := Reading.exists_spells hread
      exact Reading.spells_render hl
    obtain ⟨htokens, hfaults⟩ := Lexeme.split_intercalate hspells
    have hchars : (" ".intercalate ((lex source flags file).tokens.map Token.render)).toList =
        [' '].intercalate ((lex source flags file).tokens.map fun t => t.render.toList) := by
      rw [String.toList_intercalate, List.map_map]
      rfl
    rw [items_lex, hchars]
    refine ⟨Lexeme.diagnosticsAt_place file {} hfaults, ?_⟩
    rw [← htokens, ← hchars]
    exact Lexeme.map_tokenAt_place file {} _
  · intro x line offset place
    have hlex := lex_of_spells (Reading.spells_string x) flags file
    rw [String.ofList_toList] at hlex
    exact ⟨hlex.2, by simp [Token.render, hlex.1]⟩

end StateScript
