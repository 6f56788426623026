import StateScript.Proofs.Integrity
import StateScript.Proofs.Progress

/-! # No compilation breaks off

  Whatever the tokens are, the walks and the linking find every symbol and every token that
  they count on, and no budget runs out. For the walks this is the safety of their rules. Linking
  counts on more: the code that it numbers names symbols that may have been declared anywhere.
  It is reached only if both walks have gone through without an error, and then the code
  is complete.

  The second walk counts on the first as well: it asks for the symbols that the first has
  declared, by their tokens. If it misses one, it reports a failure of the compiler itself.
  Such a report stands alone only where the walks have parted, which takes a `switch`.
-/

namespace StateScript

namespace Walk

variable {flags : Flags} {tokens : List Token} {c : Nat}

/-! ### What linking counts on -/

section Mentioned

variable {t : Table} {id : Nat}

/-- What an instruction names by a placeholder is there. -/
theorem lt_of_belongs (hform : t.WellFormed) {f : Nat} {op : Op} (h : Belongs t f op) {x : Operand}
    (hx : x ∈ op.2) (hid : x.placeholder? = some id) : id < t.size := by
  rcases h x hx with suits | ⟨target, rfl, haims⟩
  · cases x with
    | symbol name =>
      cases hid
      exact lt_of_names suits
    | target => exact suits.elim
    | _ => cases hid
  · cases hid
    exact hform.lt_of_mem_children (hform.listed _ f haims.scope)

/-- Once the code is complete, linking meets no id but those of symbols. -/
theorem lt_of_mentioned (hrooted : t.Rooted) (hcomplete : Complete t)
    (h : id ∈ (layout t).mentioned t) : id < t.size := by
  have hform := hrooted.wellFormed
  unfold Layout.mentioned at h
  simp only [List.mem_append, List.mem_flatMap, List.mem_filterMap] at h
  rcases h with ((hmem | ⟨owner, -, hchild⟩) | ⟨member, hmember, howner⟩) | ⟨i, hi, x, hx, hname⟩
  · exact hrooted.mem_preorder.1 hmem
  · exact hform.lt_of_mem_children hchild
  · exact Nat.lt_trans (hform.scope_lt member id howner) (hrooted.mem_preorder.1 hmember)
  · obtain ⟨p, hp⟩ := List.mem_iff_getElem?.1 hi
    obtain ⟨f, k, -, hk, -⟩ := exists_body_of_code hrooted hp
    exact lt_of_belongs hform (hcomplete.belongs (List.mem_of_getElem? hk)) hx hname

end Mentioned

theorem State.Sane.starts {s : State} (h : s.Sane c) : Starts c 0 0 [] s :=
  ⟨h, Nat.zero_le _, h.pos, fun _ hid => by cases hid⟩

/-- Linking gives an object, or the compilation is over. -/
theorem Fine.link {s : State} (sane : s.Sane c) (hrooted : s.table.Rooted)
    (hcomplete : Complete s.table) (defines : List Define) :
    Fine c 0 s (fun _ _ => True) (link defines s) := by
  -- All symbols that the program mentions are there.
  have hknown : ensure (fun u => u.knows ((layout s.table).mentioned s.table ++
      u.engineState.toList ++ u.editorState.toList)) s = .ok () s := by
    refine ensure_of (State.knows_iff.2 fun id hid => ?_)
    simp only [List.mem_append, Option.mem_toList] at hid
    rcases hid with (hid | hid) | hid
    · exact lt_of_mentioned hrooted hcomplete hid
    · exact sane.engine id hid
    · exact sane.editor id hid
  unfold Walk.link
  rw [view_bind, bind_of_ok hknown]
  cases (layout s.table).relocateCode s.table with
  | ok instructions => exact .ok sane (Nat.le_refl _) (Nat.le_refl _) trivial
  | error id => exact Safe.run s sane.starts

/-! ### Whole units -/

instance : Safe c 0 0 [] checkDefaultState := by
  unfold checkDefaultState
  infer_instance

/-- A unit is compiled to its end, or a fatal finding has ended it. -/
theorem unit_ends (defines : List Define) (flags : Flags) (tokens : List Token) :
    (∃ s, unit defines (.initial flags tokens) = .error .fatal s) ∨
      ∃ o s, unit defines (.initial flags tokens) = .ok o s := by
  have hcaught := (ends_unit defines (s := .initial flags tokens) rfl).caught
  unfold unit at hcaught ⊢
  rcases (sane_initial flags tokens).walkOver .declare with ⟨s, hs⟩ | ⟨s, hs, sane, -⟩
  · exact .inl ⟨s, bind_of_error hs⟩
  rw [bind_of_ok hs] at hcaught ⊢
  rcases sane.walkOver .emit with ⟨t, ht⟩ | ⟨t, ht, sane, -⟩
  · exact .inl ⟨t, bind_of_error ht⟩
  rw [bind_of_ok ht] at hcaught ⊢
  have hpass : t.pass = .emit := (keeps_second ht).pass
  generalize hr : (_ >>= _ : Walk (Option Object)) t = r at hcaught ⊢
  have hrun : Fine tokens.length 0 t (fun _ _ => True) r := by
    rw [← hr]
    refine (Safe.run t sane.starts).bind fun _ t₁ hret sane _ _ _ => ?_
    refine (Safe.run t₁ sane.starts).bind fun _ t₂ hcheck sane _ _ _ => ?_
    rw [view_bind]
    split
    · exact .ok sane (Nat.le_refl _) (Nat.le_refl _) trivial
    · next hlog =>
      -- without an error the walk stands where both walks have left it, with a return behind the
      -- code
      rw [Bool.not_eq_true] at hlog
      cases checkDefaultState_eq_ok hcheck hlog
      cases state_of_emit _ _ hpass hret
      have walked : Walked flags tokens s t := ⟨hs, ht, hlog⟩
      refine (Fine.link sane walked.rooted walked.complete defines).bind fun o t₃ _ sane _ _ _ => ?_
      exact .ok sane (Nat.le_refl _) (Nat.le_refl _) trivial
  cases hrun with
  | ok => exact .inr ⟨_, _, rfl⟩
  | abandoned => exact absurd rfl hcaught
  | fatal => exact .inl ⟨_, rfl⟩

/-! ### Failures of the compiler -/

theorem not_internal_of_hasFatal {log : Log} (h : log.hasFatal = false) : ¬ Internal log :=
  fun ⟨d, hd, hlevel, _⟩ => hasFatal_eq_false.1 h d hd hlevel

/-- A walk that reports failures of the compiler as fatal. -/
def Properly {α : Type} (x : Walk α) : Prop := ∀ s, Proper s.log → Proper (final (x s)).log

section Properly

variable {α β : Type} {x : Walk α} {f : α → Walk β}

theorem Properly.of_respects [hx : Respects .any 0 x] : Properly x :=
  fun s => (hx.run s (Nat.zero_le _)).proper

theorem Properly.bind (hx : Properly x) (hf : ∀ a, Properly (f a)) : Properly (x >>= f) := by
  intro s hs
  have h := hx s hs
  cases hrun : x s with
  | ok a s₁ =>
    rw [hrun] at h
    rw [bind_of_ok hrun]
    exact hf a s₁ h
  | error e s₁ =>
    rw [hrun] at h
    rw [bind_of_error hrun]
    exact h

theorem Properly.view (f : State → α) : Properly (view f) := fun _ h => h

end Properly

theorem properly_checkDefaultState : Properly checkDefaultState := by
  refine .bind (.view _) fun state => .bind (.view _) fun isLibrary => ?_
  split <;> exact .of_respects

theorem properly_link (defines : List Define) : Properly (link defines) := by
  refine .bind (.view _) fun table => .bind ?_ fun _ => ?_
  · intro s hs
    rcases ensure_cases (fun u => u.knows ((layout table).mentioned table ++
      u.engineState.toList ++ u.editorState.toList)) s with ⟨hrun, -⟩ | hrun <;> rwa [hrun]
  · split
    · exact fun s => .push fun _ => rfl
    · exact .view _

theorem properly_unit (defines : List Define) : Properly (unit defines) := by
  have loud : Respects .loud 0 statements := inferInstance
  have any : Respects .any 0 statements := loud.weaken
  have walks : ∀ pass, Properly (walkOver pass) := fun pass =>
    .bind (fun _ h => h) fun _ => .of_respects
  refine (walks .declare).bind fun _ => (walks .emit).bind fun _ => .bind .of_respects fun _ => ?_
  refine properly_checkDefaultState.bind fun _ => .bind (.view _) fun hasErrors => ?_
  split
  · exact .of_respects
  · exact (properly_link defines).bind fun _ => .of_respects

/-- Linking is not ended by a fatal finding if the code is complete. -/
theorem link_ne_fatal {s : State} (hrooted : s.table.Rooted) (hcomplete : Complete s.table)
    (defines : List Define) : ending (link defines s) ≠ some .fatal := by
  obtain ⟨instructions, hcode⟩ := exists_relocated hrooted hcomplete
  unfold link
  rw [view_bind, hcode]
  rcases ensure_cases (fun u => u.knows ((layout s.table).mentioned s.table ++
    u.engineState.toList ++ u.editorState.toList)) s with ⟨hrun, -⟩ | hrun
  · rw [bind_of_ok hrun]
    nofun
  · rw [bind_of_error hrun]
    nofun

/-- Behind both walks nothing is fatal any more. -/
theorem ends_behind_walks {defines : List Define} {s t u : State}
    (hs : walkOver .declare (.initial flags tokens) = .ok () s) (ht : walkOver .emit s = .ok () t)
    (h : unit defines (.initial flags tokens) = .error .fatal u) : False := by
  have hpass : t.pass = .emit := (keeps_second ht).pass
  unfold unit at h
  rw [bind_of_ok hs, bind_of_ok ht] at h
  rcases emit_of_emit .ret [] hpass with hret | hret
  · rw [bind_of_ok hret] at h
    cases hcheck : checkDefaultState (t.emit .ret [] none) with
    | error e t₂ =>
      unfold checkDefaultState at hcheck
      rw [view_bind, view_bind] at hcheck
      split at hcheck <;> cases hcheck
    | ok _ t₂ =>
      rw [bind_of_ok hcheck, view_bind] at h
      split at h
      · cases h
      -- No error so far: what is linked is complete, and linking that does not fail.
      · next hlog =>
        rw [Bool.not_eq_true] at hlog
        cases checkDefaultState_eq_ok hcheck hlog
        have walked : Walked flags tokens s t := ⟨hs, ht, hlog⟩
        have hlink := link_ne_fatal walked.rooted walked.complete defines
        cases hrun : link defines t.closed with
        | ok o t₃ => cases (bind_of_ok hrun).symm.trans h
        | error e t₃ =>
          cases (bind_of_error hrun).symm.trans h
          rw [hrun] at hlink
          exact hlink rfl
  · cases (bind_of_error hret).symm.trans h

/-- A failure of the compiler does not stand alone in a script without a `switch`. -/
theorem excused_unit {defines : List Define} {u : State}
    (h : unit defines (.initial flags tokens) = .error .fatal u) (hinternal : Internal u.log) :
    (∃ x ∈ tokens, x.kind = .kwSwitch) ∨ ∃ d ∈ u.log.items, d.level = .error := by
  have loud : Respects .loud 0 statements := inferInstance
  cases hs : walkOver .declare (.initial flags tokens) with
  | error e s =>
    cases (bind_of_error hs).symm.trans h
    rw [walkOver_run, begin_initial] at hs
    -- The first walk reports no failure of the compiler.
    exact absurd hinternal ((loud.error (Nat.zero_le _) hs).internal (.inl rfl) rfl rfl)
  | ok _ s =>
    cases ht : walkOver .emit s with
    -- Behind both walks nothing fails.
    | ok _ t => exact (ends_behind_walks hs ht h).elim
    | error e t =>
      unfold unit at h
      rw [bind_of_ok hs] at h
      cases (bind_of_error ht).symm.trans h
      rcases excused_second hs ht hinternal with herror | ⟨x, hx, hkind⟩
      · exact .inr herror
      · rw [walkOver_run] at ht
        rw [(loud.error (Nat.zero_le _) ht).tokens,
          show (s.begin .emit).tokens = tokens.toArray from (keeps_first hs).tokens] at hx
        exact .inl ⟨x, List.mem_toArray.1 hx, hkind⟩

/-- A statement that is entered does not break off. If it is abandoned, the walk stands
    behind its start and not behind the last token. -/
theorem Entered.run {n : Nat} {t : State} (h : Entered flags tokens n t) :
    Fine tokens.length t.pos t (fun _ t' => t.pos < t'.pos) (statementUpTo n t) := by
  have hfit := h.fit
  have nested := (deeper_statementUpTo n t.pos hfit.budget).takes t.pos (Nat.le_refl _) []
  exact nested.run t ⟨hfit.sane, Nat.le_refl _, hfit.ahead, by simp⟩

end Walk

namespace Compilation

open Walk

/-- The log of a compilation that has not broken off is that of its walk. -/
theorem log_of_unit {options : Options} {tokens : List Token}
    {r : EStateM.Result Stop State (Option Object)}
    (h : unit options.defines (.initial options.flags tokens) = r)
    (hend : ending r ≠ some .broken) :
    (ofTokens options tokens).log = (final r).log := by
  have hrun : (unit options.defines).run (.initial options.flags tokens) = r := h
  unfold ofTokens
  rw [hrun]
  cases r with
  | ok o s => cases o <;> rfl
  | error e s =>
    cases e with
    | broken => exact absurd rfl hend
    | _ => rfl

/-- **Nothing breaks off.** A statement is entered in a state in which all is there that it
    refers to. It does not break off, and if it is abandoned, the tokens from its start up to
    where the walk stands are there. A whole compilation gets to its end or is ended by a
    fatal finding, and its log is that of the walk. -/
theorem never_breaks_off (options : Options) (tokens : List Token) :
    (∀ n t, Entered options.flags tokens n t → t.Sane tokens.length ∧
      ending (statementUpTo n t) ≠ some .broken ∧
      ∀ t', statementUpTo n t = .error .abandoned t' → t.pos ≤ t'.pos ∧ t'.pos ≤ tokens.length) ∧
    ((∃ s, unit options.defines (.initial options.flags tokens) = .error .fatal s ∧
        (ofTokens options tokens).log = s.log) ∨
      ∃ o s, unit options.defines (.initial options.flags tokens) = .ok o s ∧
        (ofTokens options tokens).log = s.log) := by
  constructor
  · intro n t h
    have hrun := h.run
    generalize statementUpTo n t = r at hrun
    refine ⟨h.fit.sane, ?_, ?_⟩
    · cases hrun <;> exact fun hend => by cases hend
    · rintro t' rfl
      cases hrun with
      | abandoned sane start => exact ⟨start, sane.pos⟩
  · rcases unit_ends options.defines options.flags tokens with ⟨s, hs⟩ | ⟨o, s, hs⟩
    · exact .inl ⟨s, hs, log_of_unit hs fun hend => by cases hend⟩
    · exact .inr ⟨o, s, hs, log_of_unit hs fun hend => by cases hend⟩

/-- A variable without a name: `int 5 ;`. -/
def namelessVariable : List Token :=
  [mark .intType, wordOf .integerLiteral "5", mark .semicolon]

theorem never_breaks_off_nameless :
    let start := (State.initial {} namelessVariable).begin .declare
    Entered {} namelessVariable 4 start ∧
      ∃ t', statementUpTo 4 start = .error .abandoned t' ∧ start.pos ≤ t'.pos ∧ t'.pos ≤ 3 := by
  intro start
  have hentered : Entered {} namelessVariable 4 start := .outer .first (by decide)
  have hend : ending (statementUpTo 4 start) = some .abandoned := by decide +kernel
  have hbounds := ((never_breaks_off {} namelessVariable).1 4 start hentered).2.2
  refine ⟨hentered, ?_⟩
  cases hrun : statementUpTo 4 start with
  | ok a t' =>
    rw [hrun] at hend
    cases hend
  | error e t' =>
    rw [hrun] at hend
    cases hend
    exact ⟨t', rfl, hbounds t' hrun⟩

end Compilation

namespace Walk

open Compilation

/-- **The walks agree.** Where a compilation gives an object, the second walk has found
    everything again that the first has declared, in the same order, for the same tokens and in
    the same functions and regions, and nothing else. Where the compiler reports a failure of
    its own, that does not stand alone: there is an error besides, or the script has a
    `switch`. -/
theorem finds_what_was_declared (options : Options) (tokens : List Token) :
    ((ofTokens options tokens).succeeded = true →
      ∃ s t, walkOver .declare (.initial options.flags tokens) = .ok () s ∧
        walkOver .emit s = .ok () t ∧ t.recalled = s.declared ∧ t.declared = s.declared) ∧
    ((∃ d ∈ (ofTokens options tokens).log.items, d.code = .internalError) →
      (∃ x ∈ tokens, x.kind = .kwSwitch) ∨
      ∃ d ∈ (ofTokens options tokens).log.items, d.level = .error ∧ d.code ≠ .internalError) := by
  refine ⟨fun h => ?_, fun ⟨d, hd, hcode⟩ => ?_⟩
  · obtain ⟨o, ho⟩ := Option.isSome_iff_exists.1 h
    obtain ⟨s, t, o', hcompiled, -⟩ := compiled_of_ofTokens ho
    have hdeclared := ((keeps_second hcompiled.emits).emit rfl).1
    refine ⟨s, t, hcompiled.declares, hcompiled.emits, ?_, hdeclared⟩
    rw [recalled_eq_declared hcompiled.declares hcompiled.emits hcompiled.quiet]
    exact hdeclared
  · have hproper := properly_unit options.defines (.initial options.flags tokens) nofun
    have hends := ends_unit options.defines (s := .initial options.flags tokens) rfl
    rcases unit_ends options.defines options.flags tokens with ⟨u, hu⟩ | ⟨o, u, hu⟩ <;>
      rw [log_of_unit hu nofun] at hd ⊢ <;> rw [hu] at hproper hends
    · rcases excused_unit hu ⟨d, hd, hproper d hd hcode, hcode⟩ with h | ⟨d, hd, hlevel⟩
      · exact .inl h
      -- Failures of the compiler are fatal, and this finding is not.
      · refine .inr ⟨d, hd, hlevel, fun hcode => ?_⟩
        cases hlevel.symm.trans (hproper d hd hcode)
    · exact absurd ⟨d, hd, hproper d hd hcode, hcode⟩
        (not_internal_of_hasFatal (hends.log.absent nofun))

/-- A loop whose condition is declared after it: `void f() { while (b) { } } bool b;`. -/
def loopBeforeDeclaration : List Token :=
  [mark .voidType, wordOf .identifier "f", mark .openParen, mark .closeParen, mark .openBrace,
    mark .kwWhile, mark .openParen, wordOf .identifier "b", mark .closeParen, mark .openBrace,
    mark .closeBrace, mark .closeBrace, mark .boolType, wordOf .identifier "b", mark .semicolon]

/-- A loop in the last clause of another whose condition is an error:
    `void f() { for (; u; while (1) { }) { } }`. The second walk goes on at the inner loop,
    which the first has never got to. -/
def loopInClause : List Token :=
  [mark .voidType, wordOf .identifier "f", mark .openParen, mark .closeParen, mark .openBrace,
    mark .kwFor, mark .openParen, mark .semicolon, wordOf .identifier "u", mark .semicolon,
    mark .kwWhile, mark .openParen, wordOf .integerLiteral "1", mark .closeParen, mark .openBrace,
    mark .closeBrace, mark .closeParen, mark .openBrace, mark .closeBrace, mark .closeBrace]

theorem finds_what_was_declared_later :
    ((ofTokens { flags := { library := true } } loopBeforeDeclaration).succeeded = true ∧
      ∃ s t, walkOver .declare (.initial { library := true } loopBeforeDeclaration) = .ok () s ∧
        walkOver .emit s = .ok () t ∧ t.recalled = s.declared ∧ t.declared = s.declared) ∧
    ((∃ d ∈ (ofTokens {} loopInClause).log.items, d.code = .internalError) ∧
      ∃ d ∈ (ofTokens {} loopInClause).log.items, d.level = .error ∧ d.code ≠ .internalError) := by
  have hfound : (ofTokens { flags := { library := true } } loopBeforeDeclaration).succeeded =
      true := by decide +kernel
  have hlost : ∃ d ∈ (ofTokens {} loopInClause).log.items, d.code = .internalError := by
    decide +kernel
  have hplain : ¬ ∃ x ∈ loopInClause, x.kind = .kwSwitch := by decide +kernel
  have hagree := finds_what_was_declared { flags := { library := true } } loopBeforeDeclaration
  have hexcuse := (finds_what_was_declared {} loopInClause).2 hlost
  exact ⟨⟨hfound, hagree.1 hfound⟩, hlost, hexcuse.resolve_left hplain⟩

end Walk

end StateScript
