import StateScript.Proofs.Outcome

/-! # Switches that check do not change code

  Of the switches only two have a say in the code: breakpoints are kept or not, and the
  program is shortened or not. The others only say what ends a compilation: a warning or a
  message under the switch that makes it fatal, and a missing default state in a program
  that is no library. So two compilations of a script that both succeed make the same
  object, and one switch more that makes findings fatal is the same as to look for such
  findings afterwards.

  Main statement: `switches_keep_code`.
-/

namespace StateScript

namespace Walk

variable {F G : Flags}

/-! ### Units under two sets of switches -/

/-- Breakpoints among the tokens of a script do not part two sets of switches. -/
theorem unparted_initial {tokens : List Token} (flags : Flags)
    (h : F.debug = G.debug ∨ ∀ t ∈ tokens, t.kind ≠ .kwBreakpoint) :
    (State.initial flags tokens).Unparted F G := by
  rcases h with hdebug | hnone
  · exact .inl hdebug
  · exact .inr fun t ht => hnone t (by simpa [State.initial] using ht)

theorem closed_under (s : State) (flags : Flags) : (s.under flags).closed = s.closed.under flags :=
  rfl

theorem object_under (s : State) (flags : Flags) (defines : List Define) (code : List Instruction) :
    (s.under flags).object defines code = { s.object defines code with flags } := rfl

theorem alike_walkOver (pass : Pass) : Indifferent F G 0 (walkOver pass) :=
  .bind (.change (fun _ _ => Nat.zero_le _) (fun _ => rfl) (fun _ => rfl) fun _ _ => rfl)
    fun _ => Respects.alike .loud

/-- Two units that are both compiled are the same but for their switches. -/
theorem Compiled.alike {defines : List Define} {tokens : List Token} {s t s' t' : State}
    {o o' : Object} (h : Compiled defines F tokens s t o) (h' : Compiled defines G tokens s' t' o')
    (hbreak : F.debug = G.debug ∨ ∀ t ∈ tokens, t.kind ≠ .kwBreakpoint) :
    o.flags = F ∧ o' = { o with flags := G } := by
  have hfirst := (alike_walkOver .declare).run (.initial F tokens) (Nat.zero_le _)
    (unparted_initial F hbreak)
  change Parallel F G (walkOver .declare (.initial F tokens))
    (walkOver .declare (.initial G tokens))
    at hfirst
  rw [h.declares, h'.declares] at hfirst
  cases hfirst with
  | ok _ u hu =>
    have hsecond := (alike_walkOver .emit).run u (Nat.zero_le _) hu
    rw [h.emits, h'.emits] at hsecond
    cases hsecond with
    | ok _ v hv =>
      obtain ⟨code, hcode, rfl⟩ := h.linked
      obtain ⟨code', hcode', rfl⟩ := h'.linked
      -- linking looks at the table, which is the same
      cases hcode.symm.trans hcode'
      rw [closed_under, closed_under, object_under, object_under]
      generalize v.closed.object defines code = p
      exact ⟨rfl, rfl⟩

/-- Compiles a script up to the question whether it can be linked. -/
def links (defines : List Define) : Walk Bool := do return (← unit defines).isSome

theorem links_eq_ok {defines : List Define} {s s' : State} {a : Bool} :
    links defines s = .ok a s' ↔ ∃ o, unit defines s = .ok o s' ∧ o.isSome = a := by
  unfold links
  rw [bind_eq_ok]
  constructor
  · rintro ⟨o, s₁, hunit, hpure⟩
    cases hpure
    exact ⟨o, hunit, rfl⟩
  · rintro ⟨o, hunit, rfl⟩
    exact ⟨o, s', hunit, rfl⟩

/-- A view that is the same under both sets of switches. -/
theorem Indifferent.view {α : Type} {f : State → α}
    (h : ∀ s : State, f (s.under F) = f (s.under G)) :
    Indifferent F G 0 (view f) := by
  refine ⟨fun _ _ _ _ _ => Nat.zero_le _, fun _ _ => List.prefix_rfl, fun s _ hs => ?_⟩
  show Parallel F G (.ok (f (s.under F)) (s.under F)) (.ok (f (s.under G)) (s.under G))
  rw [h s]
  exact .ok _ s hs

theorem alike_links (defines : List Define) (h : F.library = G.library) :
    Indifferent F G 0 (links defines) := by
  have check : Indifferent F G 0 checkDefaultState := by
    refine .bind (Respects.alike .any) fun state => .bind (.view fun _ => h) fun isLibrary => ?_
    exact Respects.alike .any
  have linked : Indifferent F G 0
      (do let o ← link defines; return (some o).isSome : Walk Bool) := by
    have ensured (holds : State → Bool) (h : ∀ s flags, holds (s.under flags) = holds s) :
        Indifferent F G 0 (ensure holds) :=
      (Respects.ensure (g := .any) h).alike
    unfold link
    simp only [bind_assoc]
    refine .bind (.view fun _ => rfl) fun table => .bind (ensured _ fun _ _ => rfl) fun _ => ?_
    split
    · exact .bind (.fatal ..) fun _ => Respects.alike .any
    · exact .view fun _ => rfl
  unfold links unit
  simp only [bind_assoc]
  refine .bind (alike_walkOver .declare) fun _ => .bind (alike_walkOver .emit) fun _ => ?_
  refine .bind (Respects.alike .any) fun _ => .bind check fun _ => ?_
  refine .bind (.view fun _ => rfl) fun hasErrors => ?_
  -- Linking is left out after an error, so it may fail under either.
  cases hasErrors with
  | true => exact Respects.alike (x := (pure false : Walk Bool)) .any
  | false =>
    simp only [Bool.false_eq_true, if_false, bind_assoc, pure_bind]
    exact linked

end Walk

namespace Compilation

variable {options : Options} {file source : String}

open Walk

/-! ### Compilations of tokens -/

section Tokens

variable {options : Options} {flags : Flags} {tokens : List Token}

theorem log_ofTokens_of_links {a : Bool} {s : State}
    (h : links options.defines (.initial flags tokens) = .ok a s) :
    (ofTokens { options with flags } tokens).log = s.log := by
  obtain ⟨o, hunit, -⟩ := links_eq_ok.1 h
  have hrun : (unit options.defines).run (.initial flags tokens) = .ok o s := hunit
  unfold ofTokens
  dsimp only
  rw [hrun]
  cases o <;> rfl

theorem succeeded_ofTokens : (ofTokens { options with flags } tokens).succeeded = true ↔
    ∃ s, links options.defines (.initial flags tokens) = .ok true s := by
  have hrun : (unit options.defines).run (.initial flags tokens) =
      unit options.defines (.initial flags tokens) := rfl
  unfold succeeded ofTokens
  dsimp only
  rw [hrun]
  simp only [links_eq_ok]
  cases unit options.defines (.initial flags tokens) with
  | ok o s =>
    cases o with
    | none => simp
    | some o => exact ⟨fun _ => ⟨s, some o, rfl, rfl⟩, fun _ => rfl⟩
  | error e s => cases e <;> simp

end Tokens

/-- The objects of two compilations that both succeed, if breakpoints do not part them and
    both shorten the program or none does. -/
theorem object_ofTokens_alike {tokens : List Token} {F G : Flags}
    {o o' : Object} (hshort : F.unoptimized = G.unoptimized)
    (hbreak : F.debug = G.debug ∨ ∀ t ∈ tokens, t.kind ≠ .kwBreakpoint)
    (h : (ofTokens { options with flags := F } tokens).object = some o)
    (h' : (ofTokens { options with flags := G } tokens).object = some o') :
    o.flags = F ∧ o' = { o with flags := G } := by
  obtain ⟨s, t, p, hcompiled, rfl⟩ := compiled_of_ofTokens h
  obtain ⟨s', t', p', hcompiled', rfl⟩ := compiled_of_ofTokens h'
  obtain ⟨hflags, rfl⟩ := hcompiled.alike hcompiled' hbreak
  unfold shorten
  rw [hflags]
  dsimp only
  rw [hshort]
  -- Both objects are optimised, or neither is.
  split
  · exact ⟨hflags, rfl⟩
  · exact ⟨rfl, rfl⟩

/-! ### Compilations of scripts -/

/-- The tokens of a script that are walked over. -/
def tokensOf (source file : String) : List Token :=
  (Token.dropDirectives none (lex source {} file).tokens).1

theorem tokens_expand (options : Options) (source file : String) :
    (Token.expand (lex source options.flags file).tokens options.flags options.defines).tokens =
      tokensOf source file := rfl

/-- All findings about a script, as the parts of the compilation report them. -/
def findings (options : Options) (source file : String) : List Diagnostic :=
  (lex source options.flags file).log.items ++
    ((Token.expand (lex source options.flags file).tokens options.flags
      options.defines).log.items ++
      (ofTokens options (tokensOf source file)).log.items)

theorem ofSource_eq (options : Options) (source file : String) : ofSource options source file =
    { log := ({ flags := options.flags } : Log).pushAll (findings options source file)
      object :=
        if (({ flags := options.flags } : Log).pushAll
          (findings options source file)).hasErrors then
          none
        else (ofTokens options (tokensOf source file)).object
      optimizations := (ofTokens options (tokensOf source file)).optimizations } := by
  have hdefines : ({ options with defines := (Token.expand (lex source options.flags file).tokens
      options.flags options.defines).defines } : Options) = options := rfl
  unfold ofSource findings
  simp only [hdefines, tokens_expand, Log.pushAll, List.foldl_append]

theorem ofSource_items (options : Options) (source file : String) :
    (ofSource options source file).log.items = (findings options source file).map fun d =>
      { d with level := Log.escalate options.flags d.level } := by
  rw [ofSource_eq, Log.items_pushAll]
  rfl

theorem object_ofSource {o : Object} :
    (ofSource options source file).object = some o ↔
      (∀ d ∈ findings options source file, (Log.escalate options.flags d.level).isError = false) ∧
        (ofTokens options (tokensOf source file)).object = some o := by
  have herrors : (({ flags := options.flags } : Log).pushAll
        (findings options source file)).hasErrors = false ↔
      ∀ d ∈ findings options source file, (Log.escalate options.flags d.level).isError = false := by
    unfold Log.hasErrors
    rw [Log.items_pushAll]
    simp
  rw [← herrors, ofSource_eq]
  cases (({ flags := options.flags } : Log).pushAll (findings options source file)).hasErrors with
  | true => simp
  | false => simp

theorem succeeded_ofSource :
    (ofSource options source file).succeeded = true ↔
      (∀ d ∈ findings options source file, (Log.escalate options.flags d.level).isError = false) ∧
        (ofTokens options (tokensOf source file)).succeeded = true := by
  unfold succeeded
  simp only [Option.isSome_iff_exists, object_ofSource, exists_and_left]

/-- Errors are errors under all switches. -/
theorem items_pushAll_of_error {flags flags' : Flags} {ds : List Diagnostic}
    (h : ∀ d ∈ ds, d.level = .error) :
    (({ flags } : Log).pushAll ds).items = (({ flags := flags' } : Log).pushAll ds).items := by
  rw [Log.items_pushAll, Log.items_pushAll]
  apply congrArg
  apply List.map_congr_left
  intro d hd
  rw [h d hd]
  rfl

theorem lex_items (source file : String) (flags : Flags) :
    (lex source flags file).log.items = (lex source {} file).log.items := by
  apply items_pushAll_of_error
  intro d hd
  obtain ⟨placed, -, hd⟩ := List.mem_flatMap.1 hd
  obtain ⟨fault, -, rfl⟩ := List.mem_map.1 hd
  rfl

theorem expand_items (tokens : List Token) (flags : Flags) (defines : List Define) :
    (Token.expand tokens flags defines).log.items = (Token.expand tokens {} defines).log.items := by
  apply items_pushAll_of_error
  intro d hd
  obtain ⟨mark, -, rfl⟩ := List.mem_map.1 hd
  rfl

/-- What is found in front of the walks is the same under all switches. -/
theorem exists_findings_eq (options : Options) (source file : String) :
    ∃ front, ∀ flags, findings { options with flags } source file =
      front ++ (ofTokens { options with flags } (tokensOf source file)).log.items := by
  refine ⟨(lex source {} file).log.items ++
    (Token.expand (lex source {} file).tokens {} options.defines).log.items, fun flags => ?_⟩
  have htokens : (lex source flags file).tokens = (lex source {} file).tokens := rfl
  unfold findings
  dsimp only
  rw [htokens, lex_items source file flags, expand_items _ flags, List.append_assoc]

/-! ### Graver switches -/

section Graver

variable {options : Options} {source file : String} {F G : Flags}

/-- A finding that is no error is at its own level. -/
theorem escalate_eq_of_isError {flags : Flags} {level : StateScript.Level}
    (h : (Log.escalate flags level).isError = false) : Log.escalate flags level = level := by
  rcases escalate_eq flags level with hkept | hfatal
  · exact hkept
  · rw [hfatal] at h
    cases h

/-- How two compilations of the same tokens end. -/
theorem parallel_links (hdebug : F.debug = G.debug) (hlibrary : F.library = G.library)
    (defines : List Define) (tokens : List Token) :
    Parallel F G (links defines (.initial F tokens)) (links defines (.initial G tokens)) :=
  (alike_links defines hlibrary).run (.initial F tokens) (Nat.zero_le _) (.inl hdebug)

variable (hdebug : F.debug = G.debug) (hlibrary : F.library = G.library)
  (hgraver : ∀ level, Log.escalate G level = level → Log.escalate F level = level)
include hdebug hlibrary hgraver

/-- Where the graver switches find nothing to object to, both compilations end in the same
    state. -/
theorem exists_links (h : (ofSource { options with flags := G } source file).succeeded = true ∨
    (ofSource { options with flags := F } source file).succeeded = true ∧
      ∀ d ∈ findings { options with flags := F } source file, Log.escalate G d.level = d.level) :
    ∃ s : State, links options.defines (.initial F (tokensOf source file)) = .ok true (s.under F) ∧
      links options.defines (.initial G (tokensOf source file)) = .ok true (s.under G) := by
  have hpair := parallel_links hdebug hlibrary options.defines (tokensOf source file)
  obtain ⟨front, hfront⟩ := exists_findings_eq options source file
  rcases h with h | ⟨h, hsettled⟩
  · obtain ⟨hquiet, htokens⟩ := succeeded_ofSource.1 h
    obtain ⟨s', hlinks⟩ := succeeded_ofTokens.1 htokens
    have hlog := log_ofTokens_of_links hlinks
    rw [hlinks] at hpair
    generalize links options.defines (.initial F (tokensOf source file)) = r at hpair
    cases hpair with
    | ok _ s hs => exact ⟨s, rfl, hlinks⟩
    | first s hoffends =>
      -- what ends the first run is a fatal finding of the second, too
      obtain ⟨d, hd, hlevel⟩ := hoffends
      have hmem : d ∈ findings { options with flags := G } source file := by
        rw [hfront, hlog]
        exact List.mem_append_right _ hd
      exact absurd (hgraver _ (escalate_eq_of_isError (hquiet d hmem))) hlevel
  · obtain ⟨hquiet, htokens⟩ := succeeded_ofSource.1 h
    obtain ⟨s', hlinks⟩ := succeeded_ofTokens.1 htokens
    have hlog := log_ofTokens_of_links hlinks
    rw [hlinks] at hpair
    generalize links options.defines (.initial G (tokensOf source file)) = r at hpair
    cases hpair with
    | ok _ s hs => exact ⟨s, hlinks, rfl⟩
    | second s hoffends =>
      obtain ⟨d, hd, hlevel⟩ := hoffends
      have hmem : d ∈ findings { options with flags := F } source file := by
        rw [hfront, hlog]
        exact List.mem_append_right _ hd
      exact absurd (hsettled d hmem) hlevel

/-- Success under graver switches is success without a finding that they make graver. -/
theorem succeeded_iff_of_graver :
    (ofSource { options with flags := G } source file).succeeded = true ↔
      (ofSource { options with flags := F } source file).succeeded = true ∧
        ∀ d ∈ findings { options with flags := F } source file,
          Log.escalate G d.level = d.level := by
  obtain ⟨front, hfront⟩ := exists_findings_eq options source file
  constructor
  · intro h
    obtain ⟨s, hF, hG⟩ := exists_links hdebug hlibrary hgraver (.inl h)
    obtain ⟨hquiet, -⟩ := succeeded_ofSource.1 h
    rw [hfront, log_ofTokens_of_links hG] at hquiet
    -- Nothing is an error under the graver switches, so none of the levels was raised.
    have hkept : ∀ d ∈ front ++ s.log.items, Log.escalate G d.level = d.level :=
      fun d hd => escalate_eq_of_isError (hquiet d hd)
    rw [succeeded_ofSource, hfront, log_ofTokens_of_links hF]
    refine ⟨⟨fun d hd => ?_, succeeded_ofTokens.2 ⟨_, hF⟩⟩, hkept⟩
    rw [hgraver _ (hkept d hd), ← hkept d hd]
    exact hquiet d hd
  · rintro ⟨h, hsettled⟩
    obtain ⟨s, hF, hG⟩ := exists_links hdebug hlibrary hgraver (.inr ⟨h, hsettled⟩)
    obtain ⟨hquiet, -⟩ := succeeded_ofSource.1 h
    rw [hfront, log_ofTokens_of_links hF] at hquiet hsettled
    rw [succeeded_ofSource, hfront, log_ofTokens_of_links hG]
    refine ⟨fun d hd => ?_, succeeded_ofTokens.2 ⟨_, hG⟩⟩
    rw [hsettled d hd, ← escalate_eq_of_isError (hquiet d hd)]
    exact hquiet d hd

end Graver

/-- One level more is fatal under `G` than under `F`. -/
theorem succeeded_iff_of_raised {F G : Flags} {raised : StateScript.Level}
    (hdebug : F.debug = G.debug) (hlibrary : F.library = G.library) (hne : raised ≠ .fatal) (hraised
      : ∀ level, Log.escalate G level = if level = raised then .fatal else Log.escalate F level) :
    (ofSource { options with flags := G } source file).succeeded = true ↔
      (ofSource { options with flags := F } source file).succeeded = true ∧
        (ofSource { options with flags := F } source file).log.items.countP
          (fun d => d.level == raised) = 0 := by
  have hkept : ∀ level, Log.escalate G level = level ↔
      level ≠ raised ∧ Log.escalate F level = level := by
    intro level
    rw [hraised]
    by_cases hlevel : level = raised
    · simp [hlevel, hne.symm]
    · simp [hlevel]
  rw [succeeded_iff_of_graver hdebug hlibrary fun level h => ((hkept level).1 h).2]
  apply and_congr_right
  intro h
  -- where the compilation succeeds, all findings are at their own levels
  have hown : ∀ d ∈ findings { options with flags := F } source file,
      Log.escalate F d.level = d.level :=
    fun d hd => escalate_eq_of_isError ((succeeded_ofSource.1 h).1 d hd)
  rw [ofSource_items, List.countP_map, List.countP_eq_zero]
  constructor
  · intro hsettled d hd
    have hlevel := ((hkept d.level).1 (hsettled d hd)).1
    simpa [hown d hd] using hlevel
  · intro hcount d hd
    have hlevel := hcount d hd
    exact (hkept d.level).2 ⟨by simpa [hown d hd] using hlevel, hown d hd⟩

theorem mem_dropDirectives {t : Token} {tokens : List Token} {mark : Option Token}
    (h : t ∈ (Token.dropDirectives mark tokens).1) : t ∈ tokens := by
  induction tokens generalizing mark with
  | nil => cases h
  | cons u tokens ih =>
    unfold Token.dropDirectives at h
    split at h
    · exact List.mem_cons_of_mem _ (ih h)
    · split at h
      · exact List.mem_cons_of_mem _ (ih h)
      · rcases List.mem_cons.1 h with rfl | h
        · exact List.mem_cons_self
        · exact List.mem_cons_of_mem _ (ih h)

/-- Switches that check do not change code. Two sets of them may part only over breakpoints and
    over shortening the program; otherwise, where a script compiles under both, the objects are
    the same but for the switches themselves. And a switch that makes warnings or messages fatal
    does no more than to refuse scripts with such a finding. -/
theorem switches_keep_code (options : Options) (source file : String) (F G : Flags) :
    (F.unoptimized = G.unoptimized →
      (F.debug = G.debug ∨ ∀ t ∈ (lex source F file).tokens, t.kind ≠ .kwBreakpoint) →
      ∀ o o', (ofSource { options with flags := F } source file).object = some o →
        (ofSource { options with flags := G } source file).object = some o' →
        o.flags = F ∧ o' = { o with flags := G }) ∧
    ((ofSource { options with flags := { F with warningsFatal := true } } source file).succeeded =
        true ↔
      (ofSource { options with flags := F } source file).succeeded = true ∧
        (ofSource { options with flags := F } source file).log.warningCount = 0) ∧
    ((ofSource { options with flags := { F with messagesFatal := true } } source file).succeeded =
        true ↔
      (ofSource { options with flags := F } source file).succeeded = true ∧
        (ofSource { options with flags := F } source file).log.messageCount = 0) := by
  refine ⟨fun hshort hbreak o o' h h' => ?_, ?_, ?_⟩
  · have htokens : F.debug = G.debug ∨ ∀ t ∈ tokensOf source file, t.kind ≠ .kwBreakpoint := by
      rcases hbreak with hdebug | hnone
      · exact .inl hdebug
      · exact .inr fun t ht => hnone t (mem_dropDirectives ht)
    exact object_ofTokens_alike hshort htokens (object_ofSource.1 h).2 (object_ofSource.1 h').2
  · refine succeeded_iff_of_raised rfl rfl (by decide) fun level => ?_
    cases level <;> simp [Log.escalate]
  · refine succeeded_iff_of_raised rfl rfl (by decide) fun level => ?_
    cases level <;> simp [Log.escalate]

/-- A function that reads no parameter of its own: two sets of switches that compile it, and one
    that refuses it. -/
theorem switches_keep_code_unused :
    (∃ o o', (ofSource { flags := { library := true } } "void f(int a) { }" "a").object = some o ∧
      (ofSource { flags := { library := true, debug := true, messagesFatal := true } }
        "void f(int a) { }" "a").object = some o' ∧
      o' = { o with flags := { library := true, debug := true, messagesFatal := true } }) ∧
    (ofSource { flags := { library := true, warningsFatal := true } }
      "void f(int a) { }" "a").succeeded = false := by
  obtain ⟨hcode, hwarnings, -⟩ := switches_keep_code {} "void f(int a) { }" "a"
    { library := true } { library := true, debug := true, messagesFatal := true }
  constructor
  · obtain ⟨o, ho⟩ : ∃ o, (ofSource { flags := { library := true } }
        "void f(int a) { }" "a").object = some o :=
      Option.isSome_iff_exists.1 (by decide +kernel)
    obtain ⟨o', ho'⟩ : ∃ o', (ofSource
        { flags := { library := true, debug := true, messagesFatal := true } }
        "void f(int a) { }" "a").object = some o' :=
      Option.isSome_iff_exists.1 (by decide +kernel)
    have hbreak : ∀ t ∈ (lex "void f(int a) { }" { library := true } "a").tokens,
        t.kind ≠ .kwBreakpoint := by decide +kernel
    exact ⟨o, o', ho, ho', (hcode rfl (.inr hbreak) o o' ho ho').2⟩
  · rw [← Bool.not_eq_true]
    intro h
    have hcount := (hwarnings.1 h).2
    revert hcount
    decide +kernel

end Compilation

end StateScript
