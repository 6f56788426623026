import Mathlib.Data.List.Induction
import StateScript.Proofs.Spelling

/-! # Nothing of a clean text is lost

  A text about which there is nothing to report is made of gaps and of spellings of
  tokens, in turn: `Laid` says so, and says where each token stands by counting newlines
  and characters in front of it. Gaps are made of blanks and comments only. That comments
  nest is said by the grammar `Closes`, which counts no depth.
-/

namespace StateScript

variable {c : Char} {r : List Char}

open Text

/-! ### Gaps -/

/-- The rest of a block comment behind its opener, up to and including its closer. A
    comment inside it is closed before it is. -/
inductive Closes : List Char → Prop
  | closer : Closes ['*', '/']
  | char {c : Char} {r : List Char} : (c = '/' → r.head? ≠ some '*') →
      (c = '*' → r.head? ≠ some '/') → Closes r → Closes (c :: r)
  | nested {inner r : List Char} : Closes inner → Closes r → Closes ('/' :: '*' :: (inner ++ r))

/-- What may stand in front of a text `rest` and of each token in it: blanks and comments.
    A line comment goes up to a newline or to the end of the text. -/
inductive Gap (rest : List Char) : List Char → Prop
  | nil : Gap rest []
  | blank {c : Char} {w : List Char} : isBlank c = true → Gap rest w → Gap rest (c :: w)
  | line {body w : List Char} : '\n' ∉ body →
      (w ++ rest = [] ∨ (w ++ rest).head? = some '\n') → Gap rest w →
      Gap rest ('/' :: '/' :: (body ++ w))
  | block {r w : List Char} : Closes r → Gap rest w → Gap rest ('/' :: '*' :: (r ++ w))

/-- The characters behind the last newline. -/
def lastLine (before : List Char) : List Char := (before.reverse.takeWhile (· != '\n')).reverse

/-- By itself, a text is read as one token of the kind and text of `t`, and nothing is wrong
    with it. -/
def Alone (flags : Flags) (file : String) (l : List Char) (t : Token) : Prop :=
  ∃ t', (lex (String.ofList l) flags file).tokens = [t'] ∧ t'.kind = t.kind ∧ t'.text = t.text ∧
    (lex (String.ofList l) flags file).log.items = []

/-- `Laid before ts rest` says that `rest`, which `before` stands in front of, is made of a
    spelling of each of the tokens `ts` and of the gaps around them, and that each token has
    the line and the column that its spelling starts at. -/
inductive Laid (flags : Flags) (file : String) : List Char → List Token → List Char → Prop
  | last {before w : List Char} : Gap [] w → Laid flags file before [] w
  | token {before w l rest : List Char} {t : Token} {ts : List Token} : Gap (l ++ rest) w →
      l ≠ [] → Alone flags file l t → t.line = 1 + (before ++ w).count '\n' →
      t.offset = 1 + (lastLine (before ++ w)).length →
      Laid flags file (before ++ w ++ l) ts rest →
      Laid flags file before (t :: ts) (w ++ (l ++ rest))

/-! ### What is no token is a gap -/

/-- Characters that can be put in front of any gap in front of `rest`. -/
def Skipped (g rest : List Char) : Prop :=
  ∀ w rest', rest = w ++ rest' → Gap rest' w → Gap rest' (g ++ w)

theorem exists_closes {depth n : Nat} (h : Reading.commentWidth? depth r = some n) :
    ∃ first parts, parts.length = depth ∧ (∀ p ∈ first :: parts, Closes p) ∧
      r.take n = first ++ parts.flatten := by
  fun_induction Reading.commentWidth? depth r generalizing n with
  | case1 depth r ih =>
    obtain ⟨m, hm, rfl⟩ := Option.map_eq_some_iff.1 h
    obtain ⟨inner, parts, hlength, hcloses, htake⟩ := ih hm
    -- the first part closes the comment that is opened here
    obtain ⟨first, parts, rfl⟩ := List.exists_cons_of_length_eq_add_one hlength
    simp only [List.mem_cons, forall_eq_or_imp] at hcloses
    obtain ⟨hinner, hfirst, hparts⟩ := hcloses
    refine ⟨'/' :: '*' :: (inner ++ first), parts, by simpa using hlength, ?_, ?_⟩
    · simp only [List.mem_cons, forall_eq_or_imp]
      exact ⟨.nested hinner hfirst, hparts⟩
    · simp [htake]
  | case2 r =>
    obtain rfl := Option.some.inj h
    exact ⟨['*', '/'], [], rfl, by simpa using Closes.closer, rfl⟩
  | case3 r depth ih =>
    obtain ⟨m, hm, rfl⟩ := Option.map_eq_some_iff.1 h
    obtain ⟨first, parts, hlength, hcloses, htake⟩ := ih hm
    refine ⟨['*', '/'], first :: parts, by simpa using hlength, ?_, by simp [htake]⟩
    intro p hp
    rcases List.mem_cons.1 hp with rfl | hp
    · exact .closer
    · exact hcloses p hp
  | case4 depth c r hopen hclose ih =>
    obtain ⟨m, hm, rfl⟩ := Option.map_eq_some_iff.1 h
    obtain ⟨first, parts, hlength, hcloses, htake⟩ := ih hm
    have hhead : ∀ d, first.head? = some d → ∃ r', r = d :: r' := by
      intro d hd
      obtain ⟨first', rfl⟩ := List.head?_eq_some_iff.1 hd
      cases r with
      | nil => simp at htake
      | cons e r =>
        cases m with
        | zero => simp at htake
        | succ m =>
          simp only [List.take_succ_cons, List.cons_append, List.cons.injEq] at htake
          exact ⟨r, by rw [htake.1]⟩
    refine ⟨c :: first, parts, hlength, ?_, by simp [htake]⟩
    simp only [List.mem_cons, forall_eq_or_imp] at hcloses ⊢
    refine ⟨.char ?_ ?_ hcloses.1, hcloses.2⟩
    · intro hc hd
      obtain ⟨r', rfl⟩ := hhead _ hd
      exact hopen r' hc rfl
    · intro hc hd
      obtain ⟨r', rfl⟩ := hhead _ hd
      exact hclose r' hc rfl
  | case5 => cases h

theorem fails_of_drop_takeWhile {p : Char → Bool} {l : List Char}
    (h : l.drop (l.takeWhile p).length = c :: r) : p c = false := by
  induction l with
  | nil => cases h
  | cons d l ih =>
    by_cases hd : p d = true
    · exact ih (by simpa [hd] using h)
    · simp only [List.takeWhile_cons, if_neg hd, List.length_nil, List.drop_zero,
        List.cons.injEq] at h
      simpa [h.1] using hd

theorem skipped_lineComment (r : List Char) :
    Skipped (('/' :: '/' :: r).take (Reading.lineComment ('/' :: '/' :: r)).width)
      (('/' :: '/' :: r).drop (Reading.lineComment ('/' :: '/' :: r)).width) := by
  have hslash : ('/' :: '/' :: r).takeWhile (· != '\n') = '/' :: '/' :: r.takeWhile
      (· != '\n') := rfl
  have hbody : '\n' ∉ r.takeWhile (· != '\n') := by
    intro h
    have hne := List.all_eq_true.1 List.all_takeWhile _ h
    simp at hne
  unfold Reading.lineComment
  rw [hslash]
  simp only [List.length_cons, List.take_succ_cons, List.drop_succ_cons]
  rw [Reading.take_length_of_append (Reading.takeWhile_append_drop _ r)]
  intro w rest' hrest hgap
  -- The comment stops in front of a line break or at the end.
  refine .line hbody ?_ hgap
  rw [← hrest]
  cases hr : r.drop (r.takeWhile (· != '\n')).length with
  | nil => exact .inl rfl
  | cons c r' =>
    have hstop := fails_of_drop_takeWhile hr
    exact .inr (by simpa using hstop)

theorem skipped_blockComment {n : Nat} (h : Reading.commentWidth? 0 r = some n) :
    Skipped (('/' :: '*' :: r).take (n + 2)) (('/' :: '*' :: r).drop (n + 2)) := by
  obtain ⟨first, parts, hlength, hcloses, htake⟩ := exists_closes h
  obtain rfl := List.eq_nil_of_length_eq_zero hlength
  rw [List.flatten_nil, List.append_nil] at htake
  rw [List.take_succ_cons, List.take_succ_cons, htake]
  intro w rest' _ hgap
  exact .block (hcloses first List.mem_cons_self) hgap

/-- A reading that spells a token or is at fault. -/
def Accounted (reading : Reading) : Prop := reading.token = none → reading.faults ≠ []

theorem Accounted.ite {c : Prop} [Decidable c] {x y : Reading} (hx : Accounted x)
    (hy : Accounted y) : Accounted (if c then x else y) := by
  by_cases h : c
  · rw [if_pos h]
    exact hx
  · rw [if_neg h]
    exact hy

theorem accounted_bad (cs : List Char) (width : Nat) (code : Code) (message : String) :
    Accounted (Reading.bad cs width code message) := by
  intro _ h
  cases h

theorem accounted_token (width : Nat) (token : Kind × String) (faults : List Fault) :
    Accounted ⟨width, some token, faults⟩ := by
  intro h
  cases h

theorem accounted_string (r : List Char) : Accounted (Reading.string r) := by
  apply Accounted.ite
  · exact accounted_token _ _ _
  · intro _ h
    simp at h

theorem accounted_hexadecimal (cs r : List Char) : Accounted (Reading.hexadecimal cs r) := by
  apply Accounted.ite
  · exact accounted_bad _ _ _ _
  · apply Accounted.ite
    · exact accounted_bad _ _ _ _
    · exact accounted_token _ _ _

theorem accounted_decimal (cs : List Char) : Accounted (Reading.decimal cs) := by
  apply Accounted.ite
  · exact accounted_bad _ _ _ _
  · apply Accounted.ite
    · exact accounted_bad _ _ _ _
    · exact accounted_token _ _ _

theorem accounted_operator (c : Char) (cs : List Char) : Accounted (Reading.operator c cs) := by
  unfold Reading.operator
  split
  · exact accounted_token _ _ _
  · exact accounted_bad _ _ _ _

/-- Whatever is neither blank nor a comment spells a token or is at fault. -/
theorem accounted_read {cs : List Char} (hblank : isBlank c = false)
    (hslash : c = '/' → cs.head? ≠ some '/' ∧ cs.head? ≠ some '*') :
    Accounted (Reading.read c cs) := by
  rcases Reading.read_cases c cs with
    h | rfl | ⟨r, rfl, rfl | rfl⟩ | ⟨r, rfl, rfl | rfl⟩ | hplain
  · rw [hblank] at h
    cases h
  · exact accounted_string cs
  · exact absurd rfl (hslash rfl).1
  · exact absurd rfl (hslash rfl).2
  · exact accounted_hexadecimal _ r
  · exact accounted_hexadecimal _ r
  · rw [Reading.read_of_plain hplain]
    apply Accounted.ite
    · exact accounted_decimal _
    · apply Accounted.ite
      · exact accounted_token _ _ _
      · exact accounted_operator c cs

theorem skipped_of_read {cs : List Char} (htoken : (Reading.read c cs).token = none)
    (hfaults : (Reading.read c cs).faults = []) :
    Skipped ((c :: cs).take (Reading.read c cs).width)
    ((c :: cs).drop (Reading.read c cs).width) := by
  by_cases hblank : isBlank c = true
  · have hread : Reading.read c cs = { width := 1 } := by simp [Reading.read, hblank]
    rw [hread]
    intro w rest' _ hgap
    exact .blank hblank hgap
  -- Whatever starts like neither a blank nor a comment gives a token or a fault.
  by_cases hslash : c = '/' → cs.head? ≠ some '/' ∧ cs.head? ≠ some '*'
  · exact absurd hfaults (accounted_read (by simpa using hblank) hslash htoken)
  · obtain ⟨rfl, hhead⟩ := Classical.not_imp.1 hslash
    cases cs with
    | nil => simp at hhead
    | cons d r =>
      by_cases hline : d = '/'
      · subst hline
        exact skipped_lineComment r
      · have hblock : d = '*' := by simpa [hline] using hhead
        subst hblock
        -- A comment that is not closed would be a fault.
        have hclosed : ∃ n, Reading.commentWidth? 0 r = some n := by
          change (Reading.blockComment r).faults = [] at hfaults
          unfold Reading.blockComment at hfaults
          split at hfaults
          · exact ⟨_, ‹_›⟩
          · cases hfaults
        obtain ⟨n, hn⟩ := hclosed
        have hread : Reading.read '/' ('*' :: r) = { width := n + 2 } := by
          show Reading.blockComment r = _
          unfold Reading.blockComment
          rw [hn]
        rw [hread]
        exact skipped_blockComment hn

/-! ### Tokens and their places -/

theorem column_afterAll (before : List Char) :
    (Position.afterAll {} before).column = 1 + (lastLine before).length := by
  induction before using List.reverseRecOn with
  | nil => rfl
  | append_singleton before c ih =>
    have hstep : Position.afterAll {} (before ++ [c]) = (Position.afterAll {} before).after c := by
      rw [Position.afterAll_append]
      rfl
    rw [hstep, Position.after]
    -- A line break starts a line anew.
    by_cases hc : c = '\n'
    · simp [hc, lastLine]
    · rw [if_neg hc]
      simp only [ih, lastLine, List.reverse_append, List.reverse_singleton,
        List.singleton_append, List.takeWhile_cons, bne_iff_ne, ne_eq, hc, not_false_eq_true,
        if_true, List.length_reverse, List.length_cons]
      omega

theorem alone_of_spells {l : List Char} {t : Token} (h : Reading.Spells l t.kind t.text)
    (flags : Flags) (file : String) : Alone flags file l t :=
  have hlex := lex_of_spells h flags file
  ⟨_, hlex.1, rfl, rfl, hlex.2⟩

/-- A gap in front of a text that is laid out. -/
theorem Laid.skip {flags : Flags} {file : String} {before g rest : List Char} {ts : List Token}
    (h : Laid flags file (before ++ g) ts rest) (hg : Skipped g rest) :
    Laid flags file before ts (g ++ rest) := by
  cases h with
  | last hgap => exact .last (hg _ [] (List.append_nil _).symm hgap)
  | @token _ w l rest t ts hgap hl halone hline hoffset hrest =>
    rw [List.append_assoc] at hline hoffset
    rw [← List.append_assoc]
    refine .token (hg w _ rfl hgap) hl halone hline hoffset ?_
    simpa using hrest

theorem laid_split (flags : Flags) (file : String) (before cs : List Char)
    (h : ∀ x ∈ Lexeme.split cs, x.faults = []) :
    Laid flags file before ((Lexeme.place (Position.afterAll {} before) (Lexeme.split cs)).filterMap
      fun (p, x) => x.tokenAt file p) cs := by
  match cs with
  | [] => exact .last .nil
  | c :: cs =>
    obtain ⟨hwidth, hle⟩ := Reading.covers_read c cs
    rw [Lexeme.split_cons] at h ⊢
    have hfaults : (Reading.read c cs).faults = [] := h _ List.mem_cons_self
    have hcut := List.take_append_drop (Reading.read c cs).width (c :: cs)
    have hrest := laid_split flags file (before ++ (c :: cs).take (Reading.read c cs).width)
      ((c :: cs).drop (Reading.read c cs).width) fun x hx => h x (List.mem_cons_of_mem _ hx)
    rw [Position.afterAll_append] at hrest
    rw [Lexeme.place, List.filterMap_cons]
    cases htoken : (Reading.read c cs).token with
    -- No token: the characters join the gap in front of the rest.
    | none =>
      have hnone : ∀ p, (Lexeme.first c cs).tokenAt file p = none := by
        simp [Lexeme.first, Lexeme.tokenAt, htoken]
      simp only [hnone]
      have hskip := Laid.skip hrest (skipped_of_read htoken hfaults)
      rwa [hcut] at hskip
    | some found =>
      obtain ⟨kind, text⟩ := found
      have hspells := Reading.spells_of_read htoken hfaults
      have hsome : ∀ p : Position, (Lexeme.first c cs).tokenAt file p =
          some ⟨kind, text, p.line, p.column, file⟩ := by
        simp [Lexeme.first, Lexeme.tokenAt, htoken]
      simp only [hsome]
      -- The token stands where the text before it ends.
      let t : Token :=
        ⟨kind, text, (Position.afterAll {} before).line, (Position.afterAll {} before).column, file⟩
      have halone : Alone flags file _ t := alone_of_spells hspells flags file
      have hline : t.line = 1 + (before ++ []).count '\n' := by
        rw [List.append_nil]
        exact Position.line_afterAll {} before
      have hcolumn : t.offset = 1 + (lastLine (before ++ [])).length := by
        rw [List.append_nil]
        exact column_afterAll before
      nth_rewrite 1 [← List.append_nil before] at hrest
      have hlaid := Laid.token .nil hspells.ne_nil halone hline hcolumn hrest
      rwa [List.nil_append, hcut] at hlaid
termination_by cs.length
decreasing_by
  simp only [List.length_drop, List.length_cons]
  omega

/-- A text with nothing to report about is made of spellings of its tokens and of gaps, and
    each token stands where the text in front of its spelling ends. -/
theorem lex_laid (source : String) (flags : Flags) (file : String)
    (h : (lex source flags file).log.items = []) :
    Laid flags file [] (lex source flags file).tokens source.toList := by
  refine laid_split flags file [] source.toList ?_
  intro x hx
  obtain ⟨p, hp⟩ := Lexeme.exists_place (p := {}) hx
  rw [items_lex, List.flatMap_eq_nil_iff] at h
  exact List.map_eq_nil_iff.1 (h _ hp)

/-- Comments that nest and end with the text, an escape, a suffix and a mark without blanks. -/
theorem lex_laid_comments :
    (lex "x=\"a\\n\"/* /* b\n */ */+0X1Fl // c" {} "a").log.items = [] ∧
      Laid {} "a" [] (lex "x=\"a\\n\"/* /* b\n */ */+0X1Fl // c" {} "a").tokens
        "x=\"a\\n\"/* /* b\n */ */+0X1Fl // c".toList := by
  have h : (lex "x=\"a\\n\"/* /* b\n */ */+0X1Fl // c" {} "a").log.items = [] := by
    decide +kernel
  exact ⟨h, lex_laid _ {} "a" h⟩

end StateScript
