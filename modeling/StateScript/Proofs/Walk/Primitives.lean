import StateScript.Proofs.Walk.Keeping

/-! # Steps that all rules are made of

  Reports, the cursor, names and code: what each of these steps keeps. A rule of the
  grammar is put together from them, and so keeps what they keep.
-/

namespace StateScript.Walk

variable {α β : Type} {g : Grade} {b : Nat} {d : Diagnostic} {log : Log} {id scope : Nat}
  {s : State} {F G : Flags}

/-! ### Changes of one part of the state -/

/-- A longer log. -/
theorem Keeps.logged {e : Option Stop} (s : State) {pos : Nat}
    (hpos : e = none ∨ e = some .abandoned → b ≤ pos) (hlog : s.log.items <+: log.items)
    (hfatal : s.log.hasFatal = false → FatalLast e log) (hproper : Proper s.log → Proper log)
    {rejected : List Nat}
    (hemit : s.pass = .emit → rejected = s.rejected)
    (hrejected : rejected ≠ s.rejected → log.hasErrors = true)
    (hinternal : s.pass = .declare ∨ 2 ≤ g.rank → e = some .fatal → s.log.hasFatal = false →
      ¬ Internal log)
    (hloud : 1 ≤ g.rank → e = some .abandoned → s.pass = .emit → s.Faithful →
      log.hasErrors = true) :
    Keeps g b e s { s with pos, log, rejected } :=
  { Keeps.same (g := g) (Nat.le_refl s.pos) with
    onward := hpos
    log := hlog
    fatal := hfatal
    proper := hproper
    faithful := by
      intro hf hne
      -- A token is rejected only where an error is reported.
      by_cases h : rejected = s.rejected
      · exact hasErrors_mono hlog (hf (h ▸ hne))
      · exact hrejected h
    records := ⟨[], rfl, by simp⟩
    recalls := ⟨[], rfl, by simp⟩
    emit := fun hpass => ⟨rfl, hemit hpass⟩
    loud := hloud
    internal := hinternal
    still := fun _ => ⟨_, _, _, _, _, _, rfl⟩ }

/-- A symbol of another kind, which may have got code. -/
theorem Keeps.modifyCode [hg : g.Within .idle] (s : State) (hpos : b ≤ s.pos) (files : List String)
    {h : SymbolKind → SymbolKind} (grows : ∀ k, s.table.kind? id = some k → k.Grows (h k))
    (counts : ∀ f₀ f, h (.function f₀) = .function f →
      f₀.parameterCount = f₀.parameterTypes.length →
      f.parameterCount = f.parameterTypes.length)
    (code : s.pass = .declare ∨ 2 ≤ g.rank ∧ id ≠ s.function ∨ 3 ≤ g.rank →
      ∀ k, (h k).code = k.code)
    (appends : g.appends = true → ∀ k, k.code <+: (h k).code)
    (bound : s.pass = .declare ∨ 2 ≤ g.rank → ∀ k, (h k).bound? = k.bound?)
    (literals : 2 ≤ g.rank → ∀ k v l, h k = .var v → v.literal = some l →
      ∃ v₀, k = .var v₀ ∧ v₀.literal = some l ∧ v₀.type = v.type)
    {history : List CodeEvent} (hhistory : ∃ new, history = new ++ s.history ∧
      Carries g.binds (fun _ => g.appends = true) s.table (s.table.modifyKind id h) new) :
    Keeps g b none s { s with table := s.table.modifyKind id h, files, history } := by
  have hcode : (∀ k, (h k).code = k.code) → ∀ j,
      (s.table.modifyKind id h).code j = s.table.code j := fun hk _ => Table.code_modifyKind hk
  have hbound : (∀ k, (h k).bound? = k.bound?) → ∀ j,
      (s.table.modifyKind id h).bound? j = s.table.bound? j :=
        fun hk _ => Table.bound?_modifyKind hk
  exact
    { Keeps.same (g := g) hpos with
      table := Table.grows_modifyKind grows
      wellFormed := by
        intro hw
        refine hw.modifyKind fun k f hk hf => ?_
        -- A function was one before, and its parameters are counted as they were.
        obtain ⟨htag, -⟩ := grows k hk
        rw [hf] at htag
        cases k with
        | function f₀ =>
          refine counts f₀ f hf (hw.counts id f₀ ?_)
          rw [Table.function?, hk]
          rfl
        | _ => cases htag
      targets := by
        intro j x hj hx
        have := Table.get?_lt hx
        rw [Table.size_modifyKind] at this
        omega
      declare := fun hpass j => ⟨hcode (code (.inl hpass)) j, hbound (bound (.inl hpass)) j⟩
      code := fun hg j => Table.prefix_code_modifyKind (appends hg)
      history := hhistory
      plain := by
        intro hg
        refine ⟨rfl, rfl, fun j v l hv hl => ?_, hbound (bound (.inr hg)), fun j hj => ?_⟩
        · rw [Table.var?, Table.kind?_modifyKind] at hv
          split at hv
          · obtain ⟨k, hk, hkv⟩ := Option.bind_eq_some_iff.1 hv
            obtain ⟨k₀, hk₀, rfl⟩ := Option.map_eq_some_iff.1 hk
            -- What has a literal now had it before.
            have hvar : h k₀ = .var v := by
              cases hk₀ : h k₀ with
              | var v' =>
                rw [hk₀] at hkv
                cases hkv
                rfl
              | _ =>
                rw [hk₀] at hkv
                cases hkv
            obtain ⟨v₀, rfl, hl₀, hty⟩ := literals hg k₀ v l hvar hl
            exact ⟨v₀, by rw [Table.var?, hk₀]; rfl, hl₀, hty⟩
          · exact ⟨v, hv, hl, rfl⟩
        · by_cases hid : id = s.function
          · unfold Table.code
            rw [Table.kind?_modifyKind, if_neg (fun hij => hj (hij.symm.trans hid))]
          · exact hcode (code (.inr (.inl ⟨hg, hid⟩))) j
      idle := fun hg => hcode (code (.inr (.inr hg)))
      still := fun h => absurd (Nat.le_trans h hg.le) (by decide) }

/-- A symbol of another kind with the same code. -/
theorem Keeps.modifyKind [g.Within .idle] (s : State) (hpos : b ≤ s.pos) (files : List String)
    {h : SymbolKind → SymbolKind} (grows : ∀ k, s.table.kind? id = some k → k.Grows (h k))
    (counts : ∀ f₀ f, h (.function f₀) = .function f →
      f₀.parameterCount = f₀.parameterTypes.length →
      f.parameterCount = f.parameterTypes.length)
    (instructions : ∀ k, (h k).instructions = k.instructions)
    (bound : ∀ k, (h k).bound? = k.bound?)
    (literals : 2 ≤ g.rank → ∀ k v l, h k = .var v → v.literal = some l →
      ∃ v₀, k = .var v₀ ∧ v₀.literal = some l ∧ v₀.type = v.type) :
    Keeps g b none s { s with table := s.table.modifyKind id h, files } := by
  have code : ∀ k, (h k).code = k.code := fun k => by
    rw [SymbolKind.code_eq, SymbolKind.code_eq, instructions]
  exact .modifyCode s hpos files grows counts (fun _ => code) (fun _ k => code k ▸ List.prefix_rfl)
    (fun _ => bound) literals ⟨[], rfl, .modifyKind instructions bound⟩

/-! ### Reports -/

instance : Respects g b position := .view fun _ _ => rfl
instance : Respects g b emitting := .view fun _ _ => rfl
instance : Respects g b inFunction := .view fun _ _ => rfl
instance : Respects g b peek := .view fun _ _ => rfl
instance : Respects g b atEnd := .view fun _ _ => rfl
instance (ahead : Nat) : Respects g b (peekAt ahead) := .view fun _ _ => rfl
instance (index : Nat) : Respects g b (tokenAt index) := .view fun _ _ => rfl
instance (index : Nat) : Respects g b (isRejected index) := .view fun _ _ => rfl
instance (index : Nat) (role : Role) : Respects g b (declared? index role) := .view fun _ _ => rfl
instance : Respects g b (view fun s => s.scope) := .view fun _ _ => rfl
instance : Respects g b (view fun s => s.function) := .view fun _ _ => rfl
instance : Respects g b (view fun s => s.regions) := .view fun _ _ => rfl
instance : Respects g b (view fun s => s.metadata) := .view fun _ _ => rfl
instance : Respects g b (view fun s => s.localCount) := .view fun _ _ => rfl
instance : Respects g b (view fun s => s.engineState) := .view fun _ _ => rfl
instance : Respects g b (view fun s => s.editorState) := .view fun _ _ => rfl
instance : Respects g b (view fun s => s.loops.findSome? (·.counter)) := .view fun _ _ => rfl
instance (i : Nat) : Respects g b (view fun s => s.loops[i]?) := .view fun _ _ => rfl
instance (f : LoopFrame → Option α) : Respects g b (view fun s => s.loops.filterMap f) :=
  .view fun _ _ => rfl
instance (id : Nat) : Respects g b (view fun s => s.regionsAt id) := .view fun _ _ => rfl
instance (i : Nat) : Respects g b (view fun s => statementForm s.tokens i) := .view fun _ _ => rfl
instance (i : Nat) : Respects g b (view fun s => arrowAhead s.tokens i) := .view fun _ _ => rfl
instance (p : Bool) : Respects g b (view fun s => if p then s.function else s.scope) :=
  .view fun _ _ => rfl
instance (id : Nat) (name : String) (f : Symbol → Bool) :
    Respects g b (view fun s => s.table.find? id name f) := .view fun _ _ => rfl
instance (id : Nat) (name : String) (f : Symbol → Bool) :
    Respects g b (view fun s => s.table.findAll id name f) := .view fun _ _ => rfl
instance : Respects g b (view State.here) := .view fun _ _ => rfl
instance : Respects g b (view State.returnType) := .view fun _ _ => rfl

/-- What a walk makes sure of depends on no switch. -/
theorem Respects.ensure {holds : State → Bool} (h : ∀ s flags, holds (s.under flags) = holds s) :
    Respects g b (ensure holds) := by
  refine .of_under (fun s hpos => ?_) fun s flags => ?_
  · rcases ensure_cases holds s with ⟨hrun, -⟩ | hrun <;> rw [hrun]
    · exact Keeps.same hpos
    · exact Keeps.broken hpos
  · unfold Walk.ensure
    rw [h]
    split <;> rfl

instance (p : Bool) : Respects g b (ensure fun _ => p) := .ensure fun _ _ => rfl
instance (ids : List Nat) : Respects g b (ensure (·.knows ids)) := .ensure fun _ _ => rfl
instance (ids : List Nat) : Respects g b (ensureScopes ids) := .ensure fun _ _ => rfl
instance : Respects g b (ensure fun s => s.knows [s.function]) := .ensure fun _ _ => rfl

/-- A token from `b` on. -/
class From (b index : Nat) : Prop where
  le : b ≤ index

instance : From b b := ⟨Nat.le_refl _⟩

instance {index : Nat} [h : From b index] (n : Nat) : From b (index + n) :=
  ⟨Nat.le_add_right_of_le h.le⟩

instance (index : Nat) : From 0 index := ⟨Nat.zero_le _⟩

/-- The position that a walk reads is not in front of `b`. -/
theorem Respects.position {f : Nat → Walk α} (h : ∀ n, Respects g b (f (b + n))) :
    Respects g b (Walk.position >>= f) := by
  have hf : ∀ s : State, b ≤ s.pos → Respects g b (f s.pos) := fun s hpos => by
    obtain ⟨n, hn⟩ := Nat.exists_eq_add_of_le hpos
    exact hn ▸ h n
  exact .of_parallel (fun s hpos => (hf s hpos).run s hpos)
    fun _ _ s hpos => (hf s hpos).alike.run s hpos

instance (priority := high) {f : Nat → Walk α} [h : ∀ n, Respects g b (f (b + n))] :
    Respects g b (position >>= f) :=
  .position h

theorem prefix_push (log : Log) (d : Diagnostic) : log.items <+: (log.push d).items :=
  List.prefix_append ..

theorem hasErrors_push_error (log : Log) (h : d.level = .error) :
    (log.push d).hasErrors = true := by
  simp [Log.hasErrors, Log.push, h, Log.escalate, Level.isError]

theorem hasFatal_eq_false : log.hasFatal = false ↔ ∀ d ∈ log.items, d.level ≠ .fatal := by
  simp [Log.hasFatal]

/-- A finding that is not fatal. -/
theorem FatalLast.push {e : Option Stop} (he : e ≠ some .fatal)
    (hd : Log.escalate log.flags d.level ≠ .fatal) (h : log.hasFatal = false) :
    FatalLast e (log.push d) := by
  refine .of_none he (hasFatal_eq_false.2 fun x hx => ?_)
  rcases List.mem_append.1 hx with hx | hx
  · exact hasFatal_eq_false.1 h x hx
  · rw [List.mem_singleton] at hx
    rw [hx]
    exact hd

/-- A finding that ends the run. -/
theorem FatalLast.push_fatal (hd : Log.escalate log.flags d.level = .fatal)
    (h : log.hasFatal = false) : FatalLast (some .fatal) (log.push d) :=
  ⟨fun hne => absurd rfl hne, fun _ => ⟨_, _, rfl, hd, hasFatal_eq_false.1 h⟩⟩

/-- A code other than that of a failure of the compiler itself. -/
class Ordinary (code : Code) : Prop where
  ne (code) : code ≠ .internalError

instance : Ordinary .unexpectedToken := ⟨by decide⟩
instance : Ordinary .expectingToken := ⟨by decide⟩
instance : Ordinary .expectingExpression := ⟨by decide⟩
instance : Ordinary .unexpectedEndOfFile := ⟨by decide⟩
instance : Ordinary .undeclaredSymbol := ⟨by decide⟩
instance : Ordinary .invalidFunction := ⟨by decide⟩
instance : Ordinary .invalidCast := ⟨by decide⟩
instance : Ordinary .invalidOperator := ⟨by decide⟩
instance : Ordinary .invalidScope := ⟨by decide⟩
instance : Ordinary .duplicateSymbol := ⟨by decide⟩
instance : Ordinary .invalidIndex := ⟨by decide⟩
instance : Ordinary .illegalAssignment := ⟨by decide⟩
instance : Ordinary .missingDefaultState := ⟨by decide⟩
instance : Ordinary .duplicateDefaultState := ⟨by decide⟩
instance : Ordinary .invalidFlags := ⟨by decide⟩
instance : Ordinary .invalidParameter := ⟨by decide⟩
instance : Ordinary .invalidReturn := ⟨by decide⟩
instance : Ordinary .invalidBreak := ⟨by decide⟩
instance : Ordinary .invalidContinue := ⟨by decide⟩
instance : Ordinary .invalidLabel := ⟨by decide⟩
instance : Ordinary .invalidState := ⟨by decide⟩
instance : Ordinary .invalidIndexer := ⟨by decide⟩
instance : Ordinary .invalidLiteral := ⟨by decide⟩
instance : Ordinary .unusedSymbol := ⟨by decide⟩
instance : Ordinary .implicitCast := ⟨by decide⟩

theorem Proper.push (hcode : d.code = .internalError → Log.escalate log.flags d.level = .fatal)
    (h : Proper log) : Proper (log.push d) := by
  intro x hx
  rcases List.mem_append.1 hx with hx | hx
  · exact h x hx
  · rw [List.mem_singleton] at hx
    subst hx
    exact hcode

theorem not_internal_push (hcode : d.code ≠ .internalError) (h : log.hasFatal = false) :
    ¬ Internal (log.push d) := by
  rintro ⟨x, hx, hlevel, hinternal⟩
  rcases List.mem_append.1 hx with hx | hx
  · exact hasFatal_eq_false.1 h x hx hlevel
  · rw [List.mem_singleton] at hx
    subst hx
    exact hcode hinternal

theorem escalate_eq (flags : Flags) (level : StateScript.Level) :
    Log.escalate flags level = level ∨ Log.escalate flags level = .fatal := by
  unfold Log.escalate
  split
  · split
    · exact .inr rfl
    · exact .inl rfl
  · split
    · exact .inr rfl
    · exact .inl rfl
  · exact .inl rfl

/-- Where two sets of switches disagree about a level, one of them makes it fatal and the
    other leaves it as it is. -/
theorem escalate_cases (F G : Flags) (level : StateScript.Level) :
    Log.escalate F level = Log.escalate G level ∨
      Log.escalate F level = .fatal ∧ Log.escalate G level = level ∧ level ≠ .fatal ∨
      Log.escalate G level = .fatal ∧ Log.escalate F level = level ∧ level ≠ .fatal := by
  by_cases hlevel : level = .fatal
  · subst hlevel
    exact .inl rfl
  · rcases escalate_eq F level with hF | hF <;> rcases escalate_eq G level with hG | hG
    · exact .inl (hF.trans hG.symm)
    · exact .inr (.inr ⟨hG, hF, hlevel⟩)
    · exact .inr (.inl ⟨hF, hG, hlevel⟩)
    · exact .inl (hF.trans hG.symm)

section ReportAt

variable (index : Nat) (code : Code) (level : StateScript.Level) (message : String)

theorem reportAt_of_fatal (h : Log.escalate s.log.flags level = .fatal) :
    ∃ s', reportAt index code level message s = .error .fatal s' := by
  unfold reportAt
  dsimp only
  rw [if_pos (by rw [h]; rfl)]
  exact ⟨_, rfl⟩

theorem offends_reportAt {flags : Flags} (h : Log.escalate s.log.flags level = level)
    (hflags : Log.escalate flags level ≠ level) :
    (final (reportAt index code level message s)).log.Offends flags := by
  have hitems : (final (reportAt index code level message s)).log.items = s.log.items ++
      [{ code, message, level, line := (s.location index).line,
         offset := (s.location index).offset, file := (s.location index).file }] := by
    unfold reportAt
    dsimp only
    split <;> simp only [final, Log.push, h]
  exact ⟨_, by rw [hitems]; exact List.mem_append_right _ (List.mem_singleton_self _), hflags⟩

theorem keeps_reportAt [Ordinary code] (hpos : b ≤ s.pos) :
    Keeps g b (ending (reportAt index code level message s)) s
      (final (reportAt index code level message s)) := by
  unfold reportAt
  dsimp only
  split
  -- A fatal report ends the walk with its own stop.
  · next hlevel =>
    exact Keeps.logged (e := some .fatal) s nofun (prefix_push ..)
      (.push_fatal (by simpa using hlevel)) (.push fun h => absurd h (Ordinary.ne code))
      (fun _ => rfl) (absurd rfl) (fun _ _ => not_internal_push (Ordinary.ne code)) nofun
  · next hlevel =>
    exact Keeps.logged (e := none) s (fun _ => hpos) (prefix_push ..)
      (.push nofun (by simpa using hlevel)) (.push fun h => absurd h (Ordinary.ne code))
      (fun _ => rfl) (absurd rfl) nofun nofun

theorem parallel_reportAt (F G : Flags) (hs : s.Unparted F G) :
    Parallel F G (reportAt index code level message (s.under F))
      (reportAt index code level message (s.under G)) := by
  rcases escalate_cases F G level with hsame | ⟨hfatal, hkept, hne⟩ | ⟨hfatal, hkept, hne⟩
  -- One level under both: the same report, so the same end.
  · have hfatal : (Log.escalate G level == .fatal) = (Log.escalate F level == .fatal) := by
      rw [hsame]
    let logged : State :=
      { s with log.items := s.log.items ++
          [{ code, message, level := Log.escalate F level, line := (s.location index).line,
             offset := (s.location index).offset, file := (s.location index).file }] }
    have hF : reportAt index code level message (s.under F) =
        if Log.escalate F level == .fatal then .error .fatal (logged.under F)
        else .ok () (logged.under F) := rfl
    have hG : reportAt index code level message (s.under G) =
        if Log.escalate F level == .fatal then .error .fatal (logged.under G)
        else .ok () (logged.under G) := by
      rw [← hfatal]
      simp only [logged, hsame]
      rfl
    rw [hF, hG]
    split
    · exact .error _ logged hs
    · exact .ok _ logged hs
  -- One of the two ends here, and the report it ends with stands against it.
  · obtain ⟨s', hF⟩ := reportAt_of_fatal (s := s.under F) index code level message hfatal
    rw [hF]
    exact .first s' (offends_reportAt _ _ _ _ hkept (fun h => hne (h.symm.trans hfatal)))
  · obtain ⟨s', hG⟩ := reportAt_of_fatal (s := s.under G) index code level message hfatal
    rw [hG]
    exact .second s' (offends_reportAt _ _ _ _ hkept (fun h => hne (h.symm.trans hfatal)))

instance [Ordinary code] : Respects g b (reportAt index code level message) :=
  .of_parallel (fun _ hpos => keeps_reportAt index code level message hpos)
    fun F G _ _ hs => parallel_reportAt index code level message F G hs

theorem Indifferent.fatal : Indifferent F G b (fatal code message : Walk α) := by
  have ended : Indifferent F G b (throw .fatal : Walk α) := by
    refine ⟨fun s a s₁ _ h => ?_, fun s _ => List.prefix_rfl, fun s _ hs => .error .fatal s hs⟩
    cases h
  have reported : ∀ i, Indifferent F G b (reportAt i code .fatal message) := by
    refine fun i => ⟨fun s a s₁ _ h => ?_, fun s _ => prefix_push .., fun s _ hs => ?_⟩
    · cases h
    · exact parallel_reportAt i code .fatal message F G hs
  exact .bind (Respects.alike .any) fun i => (reported i).bind fun _ => ended

end ReportAt

theorem Respects.abandon : Respects .adding b (throw .abandoned : Walk α) :=
  .of_under (fun s hpos => Keeps.logged (e := some .abandoned) s (fun _ => hpos) List.prefix_rfl
    .abandoned id (fun _ => rfl) (absurd rfl) nofun nofun) fun _ _ => rfl

/-- What an abandoned statement leaves in the log. -/
theorem errorAt_eq (index : Nat) (code : Code) (message : String) (s : State) :
    ∃ log, s.log.items <+: log.items ∧
      (s.log.hasFatal = false → FatalLast (some .abandoned) log) ∧
      (s.pass = .emit → log.hasErrors = true) ∧
      (code ≠ .internalError → Proper s.log → Proper log) ∧
      (errorAt index code message : Walk α) s = .error .abandoned { s with log } := by
  unfold errorAt
  -- Only the second walk reports.
  rcases s.pass_cases with hpass | hpass
  · rw [emitting_bind_declare hpass]
    exact ⟨s.log, List.prefix_rfl, .abandoned, by simp [hpass], fun _ h => h, rfl⟩
  · rw [emitting_bind_emit hpass]
    refine ⟨_, prefix_push _ _, fun hs => .push nofun (by intro h; cases h) hs,
      fun _ => hasErrors_push_error s.log ?_, fun hcode => .push fun h => absurd h hcode, rfl⟩
    rfl

instance (index : Nat) (code : Code) (message : String) [Ordinary code] :
    Respects g b (errorAt index code message : Walk α) where
  run s hpos := by
    obtain ⟨log, hlog, hfatal, herrors, hproper, hrun⟩ :=
      errorAt_eq (α := α) index code message s
    rw [hrun]
    exact .logged s (fun _ => hpos) hlog hfatal (hproper (Ordinary.ne code)) (fun _ => rfl)
      (absurd rfl) nofun fun _ _ hpass _ => herrors hpass
  alike := by
    intro F G
    have abandon : Respects .adding b (throw .abandoned : Walk α) := .abandon
    have whole : Respects .adding b (do
        if ← emitting then reportAt index code .error message
        throw .abandoned : Walk α) := inferInstance
    exact whole.alike

instance (index : Nat) (code : Code) (message : String) [Ordinary code] :
    Respects g b (refuse index code message) where
  run s hpos := by
    unfold refuse
    rcases s.pass_cases with hpass | hpass
    · rw [emitting_bind_declare hpass]
      refine Keeps.logged (e := none) s (fun _ => hpos) (prefix_push ..)
        (fun hs => .push nofun (by intro h; cases h) hs)
        (.push fun h => absurd h (Ordinary.ne code)) (by simp [hpass])
        (fun _ => hasErrors_push_error s.log ?_) nofun nofun
      rfl
    · rw [emitting_bind_emit hpass]
      exact Keeps.same hpos
  alike := by
    intro F G
    refine Indifferent.bind (Respects.alike .any) fun isEmitting => ?_
    split
    · exact (inferInstance : Respects .any b (pure () : Walk Unit)).alike
    · refine .bind (.change (fun _ h => h) (fun _ => rfl) (fun _ => rfl) fun _ _ => rfl) fun _ => ?_
      exact (inferInstance : Respects .any b (reportAt index code .error message)).alike

instance [g.Within .loud] (x : Walk Unit) [hx : Respects .adding b x] :
    Respects g b (declaring x) where
  run s hpos := by
    unfold declaring
    rcases s.pass_cases with hpass | hpass
    · rw [emitting_bind_declare hpass]
      refine ((hx.run s hpos).toLoud fun _ hemit => ?_).weaken
      cases hpass.symm.trans hemit
    · rw [emitting_bind_emit hpass]
      exact Keeps.same hpos
  alike := by
    intro F G
    have whole : Respects .adding b (do if !(← emitting) then x) := inferInstance
    exact whole.alike

instance (index : Nat) (code : Code) (message : String) [Ordinary code] :
    Respects .adding b (reject index code message : Walk α) := by
  unfold reject
  exact .seq fun _ => .abandon

/-- What the end of the compilation leaves in the log. -/
theorem fatal_eq (code : Code) (message : String) (s : State) :
    ∃ log, s.log.items <+: log.items ∧ (s.log.hasFatal = false → FatalLast (some .fatal) log) ∧
      (Proper s.log → Proper log) ∧
      (fatal code message : Walk α) s = .error .fatal { s with log } :=
  ⟨_, prefix_push _ _, .push_fatal rfl, .push fun _ => rfl, rfl⟩

instance (code : Code) (message : String) [Ordinary code] :
    Respects g b (fatal code message : Walk α) where
  run s _ := Keeps.logged (e := some .fatal) s nofun (prefix_push ..) (.push_fatal rfl)
    (.push fun _ => rfl) (fun _ => rfl) (absurd rfl)
    (fun _ _ => not_internal_push (Ordinary.ne code)) nofun
  alike := .fatal code message

/-! ### The cursor -/

/-- An invariant of a scan: `ends` if no token is left, `done` if one decides. -/
theorem scan_invariant {tokens : Array Token} {turn : α → Nat → Kind → Turn α β} {whenOver : α → β}
    (inv : Nat → α → Prop) (post : β → Prop)
    (ends : ∀ i a, inv i a → tokens.size ≤ i → post (whenOver a))
    (again : ∀ i a t a', tokens[i]? = some t → inv i a → turn a i t.kind = .again a' →
      inv (i + 1) a')
    (done : ∀ i a t r, tokens[i]? = some t → inv i a → turn a i t.kind = .done r → post r)
    (n i : Nat) (a : α) (hn : tokens.size ≤ i + n) (h : inv i a) :
    post (scan tokens turn whenOver n i a) := by
  induction n generalizing i a with
  -- All tokens were seen when the turns run out.
  | zero => exact ends i a h hn
  | succ n ih =>
    unfold scan
    cases ht : tokens[i]? with
    | none => exact ends i a h (Array.getElem?_eq_none_iff.1 ht)
    | some t =>
      cases hturn : turn a i t.kind with
      | again a' =>
        simp only [hturn]
        exact ih (i + 1) a' (by omega) (again i a t a' ht h hturn)
      | done r =>
        simp only [hturn]
        exact done i a t r ht h hturn

theorem scanFrom_invariant {tokens : Array Token} {turn : α → Nat → Kind → Turn α β}
    {whenOver : α → β} {i : Nat} {a : α} (inv : Nat → α → Prop) (post : β → Prop) (h : inv i a)
    (ends : ∀ i a, inv i a → tokens.size ≤ i → post (whenOver a))
    (again : ∀ i a t a', tokens[i]? = some t → inv i a → turn a i t.kind = .again a' →
      inv (i + 1) a')
    (done : ∀ i a t r, tokens[i]? = some t → inv i a → turn a i t.kind = .done r → post r) :
    post (scanFrom tokens i a whenOver turn) :=
  scan_invariant inv post ends again done _ i a (by omega) h

theorem le_of_closing? {tokens : Array Token} {opens closes : Kind} {i depth next : Nat}
    (h : closing? tokens opens closes i depth = some next) : i ≤ next := by
  refine scanFrom_invariant (fun j _ => i ≤ j) (fun r => r = some next → i ≤ next) (Nat.le_refl i)
    nofun (fun j _ _ _ _ hj _ => Nat.le_succ_of_le hj) ?_ h
  intro j depth t r _ hj hturn hr
  split at hturn
  · cases hturn
  · split at hturn
    · split at hturn
      · cases hturn
        cases hr
        exact Nat.le_succ_of_le hj
      · cases hturn
    · cases hturn

instance (kind : Kind) : Respects g b (check kind) := by
  unfold check
  infer_instance

instance Respects.moveTo {pos : Nat} [h : From b pos] : Respects g b (Walk.moveTo pos) :=
  .of_under (fun s _ => Keeps.beside s h.le ..) fun _ _ => rfl

instance : Respects g b skip :=
  .of_under (fun s h => Keeps.beside s (Nat.le_succ_of_le h) ..) fun _ _ => rfl

instance (kind : Kind) : Respects g b (eat kind) := by
  unfold eat
  infer_instance

instance (context : String) : Respects g b (unexpected context : Walk α) := by
  unfold unexpected
  infer_instance

instance : Respects g b advance := by
  unfold advance
  infer_instance

instance (kind : Kind) : Respects g b (expect kind) := by
  unfold expect
  infer_instance

/-- A run over items with commas between them. -/
inductive Listed (item : Walk α) : State → List α → State → Prop
  | last {s s₁ s₂ : State} {a : α} (ha : item s = .ok a s₁) (hend : eat .comma s₁ = .ok false s₂) :
      Listed item s [a] s₂
  | more {s s₁ s₂ s₃ : State} {a : α} {as : List α} (ha : item s = .ok a s₁)
      (hcomma : eat .comma s₁ = .ok true s₂) (rest : Listed item s₂ as s₃) :
      Listed item s (a :: as) s₃

theorem listed_of_separated {item : Walk α} {as : List α} {s₁ : State}
    (h : separated item s = .ok as s₁) : Listed item s as s₁ := by
  -- The items so far stand in reverse.
  have turns : ∀ n done s, iterate (fun items => do
      let x ← item
      if ← eat .comma then return Turn.again (x :: items)
      else return Turn.done (x :: items).reverse) n done s = .ok as s₁ →
      ∃ new, as = done.reverse ++ new ∧ Listed item s new s₁ := by
    intro n
    induction n with
    | zero =>
      intro done s h
      cases h
    | succ n ih =>
      intro done s h
      obtain ⟨r, s', hturn, h⟩ := bind_eq_ok.1 h
      obtain ⟨a, s'', ha, hturn⟩ := bind_eq_ok.1 hturn
      obtain ⟨isMore, s₃, hcomma, hturn⟩ := bind_eq_ok.1 hturn
      cases isMore with
      | true =>
        cases hturn
        obtain ⟨new, hnew, hlisted⟩ := ih (a :: done) _ h
        exact ⟨a :: new, by simpa using hnew, .more ha hcomma hlisted⟩
      | false =>
        cases hturn
        cases h
        exact ⟨[a], by simp, .last ha hcomma⟩
  obtain ⟨new, rfl, hlisted⟩ := turns _ [] s h
  exact hlisted

instance (opens closes : Kind) : Respects g b (skipBalanced opens closes) := by
  have start : Respects .any 0 (skipBalanced opens closes) := by
    unfold skipBalanced
    refine .seq fun pos => .bind (.view fun _ _ => rfl) fun next => ?_
    split <;> infer_instance
  refine .of_parallel (fun s hpos => ?_) fun _ _ s _ => start.alike.run s (Nat.zero_le _)
  unfold skipBalanced
  rw [position_bind, view_bind]
  cases hnext : closing? s.tokens opens closes s.pos 1 with
  | some next =>
    exact Keeps.beside s (Nat.le_trans hpos (le_of_closing? hnext)) ..
  | none =>
    -- The end of the tokens may lie in front of `b`, but then the run is over.
    exact Keeps.logged (e := some .fatal) s nofun (prefix_push ..) (.push_fatal rfl)
      (.push fun _ => rfl) (fun _ => rfl) (absurd rfl)
      (fun _ _ => not_internal_push (Ordinary.ne .unexpectedEndOfFile)) nofun

/-! ### Making symbols -/

/-- What is true of every symbol that is made other than a target. -/
class NewKind (kind : SymbolKind) : Prop where
  target : kind.isTarget = false
  code : kind.code = []
  literal : ∀ v, kind = .var v → v.literal = none
  counts : ∀ f, kind = .function f → f.parameterCount = f.parameterTypes.length

instance : NewKind .text := ⟨rfl, rfl, by rintro _ ⟨⟩, by rintro _ ⟨⟩⟩
instance : NewKind .space := ⟨rfl, rfl, by rintro _ ⟨⟩, by rintro _ ⟨⟩⟩
instance : NewKind .enumeration := ⟨rfl, rfl, by rintro _ ⟨⟩, by rintro _ ⟨⟩⟩
instance (engine editor : Bool) : NewKind (.state engine editor) :=
  ⟨rfl, rfl, by rintro _ ⟨⟩, by rintro _ ⟨⟩⟩
instance (value : String) : NewKind (.metadata value) :=
  ⟨rfl, rfl, by rintro _ ⟨⟩, by rintro _ ⟨⟩⟩

instance (kind : VariableKind) (type : ValueType) (isConstant isProperty : Bool) (storage : Storage)
    (used : Bool) (access : Access) :
    NewKind (.var
      { kind, type, isConstant, isProperty, storage, literal := none, used, access }) where
  target := rfl
  code := rfl
  literal := by
    rintro _ ⟨⟩
    rfl
  counts := by rintro _ ⟨⟩

instance (returnType : ValueType) (flags : FunctionFlags) :
    NewKind (.function { returnType, flags }) where
  target := rfl
  code := rfl
  literal := by rintro _ ⟨⟩
  counts := by
    rintro _ ⟨⟩
    rfl

/-- A new symbol, with a record of it or without one. -/
theorem Keeps.add [hg : g.Within .idle] (s : State) (hpos : b ≤ s.pos) {scope : Nat}
    (hscope : scope < s.table.size)
    (name : String) {kind : SymbolKind} (hcode : kind.code = []) (hbound : kind.bound? = none)
    (hliteral : ∀ v, kind = .var v → v.literal = none)
    (hcounts : ∀ f, kind = .function f → f.parameterCount = f.parameterTypes.length)
    (new : List Declared) (hnew : ∀ d ∈ new, b ≤ d.token)
    (htarget : kind.isTarget = true →
      Marked (new ++ s.declared) s.table.size (s.table.newcomer scope name kind))
    (hrecorded : s.pass = .emit ∨ 2 ≤ g.rank → new = []) :
    Keeps g b none s
      { s with table := s.table.add (some scope) name kind, declared := new ++ s.declared } := by
  have hcodes : ∀ j, (s.table.add (some scope) name kind).code j = s.table.code j :=
    fun _ => Table.code_add name hcode
  have hbounds : ∀ j, (s.table.add (some scope) name kind).bound? j = s.table.bound? j :=
    fun _ => Table.bound?_add name hbound
  exact
    { Keeps.same (g := g) hpos with
      table := Table.grows_add _ _ _
      wellFormed := fun hw => hw.add hscope name hcounts
      records := ⟨new, rfl, hnew⟩
      targets := by
        intro id x hid hx hx'
        dsimp only at hx
        rw [Table.get?_add] at hx
        -- A target that was not there before is the new symbol.
        have hlt : id < s.table.size + 1 := by
          apply Decidable.byContradiction
          intro hge
          rw [if_neg (by omega), if_neg (by omega), Table.get?_eq_none (by omega)] at hx
          cases hx
        have hid' : id = s.table.size := by omega
        rw [if_pos hid'] at hx
        cases hx
        rw [hid']
        exact htarget hx'
      emit := fun hpass => ⟨by rw [hrecorded (.inl hpass)]; rfl, rfl⟩
      declare := fun _ j => ⟨hcodes j, hbounds j⟩
      code := fun _ j => hcodes j ▸ List.prefix_rfl
      history := by
        refine ⟨[], rfl, .none (fun j => Table.instructions_add name ?_) hbounds⟩
        rw [SymbolKind.code_eq] at hcode
        simpa using hcode
      plain := by
        intro hg
        refine ⟨by rw [hrecorded (.inr hg)]; rfl, rfl, fun j v l hv hl => ?_, hbounds,
          fun j _ => hcodes j⟩
        rw [Table.var?, Table.kind?_add] at hv
        split at hv
        -- A new variable has no literal yet.
        · have hvar : kind = .var v := by
            cases kind with
            | var v' =>
              cases hv
              rfl
            | _ => cases hv
          rw [hliteral v hvar] at hl
          cases hl
        · exact ⟨v, hv, hl, rfl⟩
      idle := fun _ => hcodes
      still := fun h => absurd (Nat.le_trans h hg.le) (by decide) }

theorem bound?_eq_none {kind : SymbolKind} (h : kind.isTarget = false) : kind.bound? = none := by
  cases kind <;> first | rfl | cases h

theorem Indifferent.addSymbol (name : String) (kind : SymbolKind) :
    Indifferent F G b (addSymbol scope name kind) where
  onward s a s₁ hpos h := by
    unfold Walk.addSymbol at h
    dsimp only at h
    split at h <;> cases h
    exact hpos
  logs s _ := by
    unfold Walk.addSymbol
    dsimp only
    split <;> exact List.prefix_rfl
  run s _ hs := by
    show Parallel F G (if scope < s.table.size then _ else _)
      (if scope < s.table.size then _ else _)
    split
    · exact .ok s.table.size { s with table := s.table.add (some scope) name kind } hs
    · exact .error .broken s hs

instance [g.Within .idle] (name : String) (kind : SymbolKind) [new : NewKind kind] :
    Respects g b (addSymbol scope name kind) where
  run s hpos := by
    unfold addSymbol
    dsimp only
    split
    · next hscope =>
      exact Keeps.add s hpos hscope name new.code (bound?_eq_none new.target) new.literal new.counts
        [] (by simp) (fun h => by rw [new.target] at h; cases h) fun _ => rfl
    · exact Keeps.broken hpos
  alike := .addSymbol name kind

theorem addSymbol_eq_ok {name : String} {kind : SymbolKind} {s₁ : State}
    (h : addSymbol scope name kind s = .ok id s₁) : scope < s.table.size ∧ id = s.table.size ∧
      s₁ = { s with table := s.table.add (some scope) name kind } := by
  unfold addSymbol at h
  dsimp only at h
  split at h
  · next hscope =>
    cases h
    exact ⟨hscope, rfl, rfl⟩
  · cases h

instance [g.Within .idle] : Respects g b allocateMemory :=
  .of_under (fun s h => Keeps.taken s h ..) fun _ _ => rfl

instance [g.Within .idle] : Respects g b allocateLocal :=
  .of_under (fun s h => Keeps.taken s h ..) fun _ _ => rfl

theorem makeVisible_eq (id : Nat) (s : State) :
    ∃ blocks, makeVisible id s = .ok () { s with blocks } := by
  unfold makeVisible change
  cases h : s.blocks with
  | nil => exact ⟨[], by simp only [h]; rw [← h]⟩
  | cons block outer => exact ⟨(id :: block) :: outer, by simp only [h]⟩

instance : Respects g b (makeVisible id) := by
  refine .of_under (fun s hpos => ?_) fun s flags => ?_
  · obtain ⟨blocks, h⟩ := makeVisible_eq id s
    rw [h]
    exact Keeps.beside s hpos ..
  · cases hblocks : s.blocks <;> simp only [makeVisible, change, under, State.under, hblocks]

instance [g.Within .idle] (text : String) : Respects g b (intern text) := by
  unfold intern
  infer_instance

instance [g.Within .idle] (owner : Nat) : Respects g b (attachMetadata owner) := by
  unfold attachMetadata
  refine .seq fun entries => ?_
  refine .bind (.of_under (fun s h => Keeps.beside s h ..) fun _ _ => rfl) fun _ => ?_
  have entry : ∀ entry : String × String, Respects g b (do
      let _ ← addSymbol owner entry.1 (.metadata entry.2) : Walk Unit) := inferInstance
  infer_instance

/-! ### Symbols by token -/

/-- A symbol that is made in the first walk: what is kept once it has its record. -/
structure Makes (b index : Nat) (role : Role) (create : Walk Nat) : Prop where
  ok : ∀ s id s₁, b ≤ s.pos → s.pass = .declare → create s = .ok id s₁ →
    Keeps .loud b none s
      { s₁ with declared := ⟨index, role, id, s₁.function, s₁.regions⟩ :: s₁.declared }
  error : ∀ s e s₁, b ≤ s.pos → s.pass = .declare → create s = .error e s₁ →
    Keeps .loud b (some e) s s₁

/-- A walk that makes a symbol other than a target and gives its id. -/
theorem Makes.of_plain {index : Nat} {role : Role} {create : Walk Nat} (hindex : b ≤ index)
    [hcreate : Respects .plain b create] : Makes b index role create where
  ok s id s₁ hpos _ hrun := by
    have h := hcreate.run s hpos
    rw [hrun] at h
    -- A plain walk declares nothing, so the record is the only one.
    have hdeclared : s₁.declared = s.declared := (h.plain (by decide)).1
    exact
      { h with
        records := by
          refine ⟨[⟨index, role, id, s₁.function, s₁.regions⟩], by simp [hdeclared], ?_⟩
          simpa using hindex
        targets := by
          intro j x hj hx htarget
          exact (h.targets j x hj hx htarget).mono (fun d hd => List.mem_cons_of_mem _ hd) rfl
        emit := by simp_all
        history := (Keeps.weaken (g := .loud) h).history
        loud := nofun
        internal := nofun
        plain := fun hg => absurd hg (by decide)
        idle := fun hg => absurd hg (by decide)
        still := fun hg => absurd hg (by decide) }
  error s e s₁ hpos _ hrun := by
    have h := hcreate.run s hpos
    rw [hrun] at h
    exact h.weaken

/-- A target is marked by the record that it gets. -/
theorem Makes.target {index : Nat} {role : Role} (hindex : b ≤ index) (function : Nat)
    {name : String} (hrole : name = "$target" ∨ role = .label) :
    Makes b index role (addSymbol function name (.target none)) where
  ok s id s₁ hpos hpass hrun := by
    obtain ⟨hscope, rfl, rfl⟩ := addSymbol_eq_ok hrun
    refine Keeps.add s hpos hscope name rfl rfl (by rintro _ ⟨⟩) (by rintro _ ⟨⟩)
      [⟨index, role, s.table.size, s.function, s.regions⟩] ?_ (fun _ => ?_) ?_
    · simpa using hindex
    · refine ⟨_, List.mem_cons_self, rfl, fun hne => hrole.resolve_left hne⟩
    -- Only the first walk makes targets.
    · rintro (h | h)
      · rw [hpass] at h
        cases h
      · exact absurd h (by decide)
  error s e s₁ hpos _ hrun := by
    unfold addSymbol at hrun
    dsimp only at hrun
    split at hrun
    · cases hrun
    · cases hrun
      exact Keeps.broken hpos

theorem Keeps.keyed [g.Within .loud] {index : Nat} {role : Role} {create : Walk Nat}
    (h : Makes b index role create) (hindex : b ≤ index) {s : State} (hpos : b ≤ s.pos) :
    Keeps g b (ending (keyed index role create s)) s (final (keyed index role create s)) := by
  suffices Keeps .loud b (ending (Walk.keyed index role create s)) s
    (final (Walk.keyed index role create s)) from this.weaken
  unfold Walk.keyed
  rcases s.pass_cases with hpass | hpass
  -- The first walk makes the symbol and records it.
  · rw [emitting_bind_declare hpass]
    cases hrun : create s with
    | ok id s₁ =>
      have hkeeps := h.ok s id s₁ hpos hpass hrun
      rw [if_neg (by decide), record, bind_of_ok hrun, change_bind]
      exact hkeeps
    | error e s₁ =>
      rw [if_neg (by decide), record, bind_of_error hrun]
      exact h.error s e s₁ hpos hpass hrun
  -- The second looks for the record.
  · rw [emitting_bind_emit hpass, if_pos rfl, retrieve, declared?, view_bind]
    cases hfind : s.declared.find? fun d => d.token == index && d.role == role with
    | some d =>
      refine { Keeps.refl (g := .loud) (e := none) nofun hpos with
        recalls := ⟨[_], rfl, fun f hf => ?_⟩, plain := fun hg => absurd hg (by decide)
        still := fun hg => absurd hg (by decide) }
      rw [List.mem_singleton] at hf
      subst hf
      exact ⟨hpass, hindex, congrArg (Option.map _) hfind⟩
    | none =>
      show Keeps .loud b (ending ((view _ >>= _) s)) s (final ((view _ >>= _) s))
      rw [view_bind]
      split
      · next hrejected =>
        refine Keeps.logged (e := some .abandoned) s (fun _ => hpos) List.prefix_rfl
          .abandoned id (fun _ => rfl) (absurd rfl) nofun
          fun _ _ _ hfaithful => hfaithful fun hnil => ?_
        rw [hnil] at hrejected
        cases hrejected
      · -- No record: the one report that a plain walk never makes.
        obtain ⟨log, hlog, hfatal, hproper, hrun⟩ := fatal_eq (α := Nat) .internalError
          s!"no symbol was declared for token {index} ({role.name})" s
        rw [hrun]
        refine Keeps.logged (e := some .fatal) s nofun hlog hfatal hproper (fun _ => rfl)
          (absurd rfl) ?_ nofun
        rintro (h | h)
        · cases hpass.symm.trans h
        · exact absurd h (by decide)

theorem Indifferent.keyed {index : Nat} {role : Role} {create : Walk Nat}
    (h : Indifferent F G b create) :
    Indifferent F G b (keyed index role create) := by
  have given : ∀ id : Nat, Indifferent F G b (pure id) :=
    fun _ => (inferInstance : Respects .any b _).alike
  refine .bind (Respects.alike .any) fun isEmitting => ?_
  cases isEmitting with
  | false =>
    refine h.bind fun id => .bind ?_ fun _ => given id
    exact .change (fun _ h => h) (fun _ => rfl) (fun _ => rfl) fun _ _ => rfl
  | true =>
    refine .bind (Respects.alike .any) fun found => ?_
    -- The record is found under both, or under neither.
    cases found with
    | some id =>
      exact .bind (.change (fun _ h => h) (fun _ => rfl) (fun _ => rfl) fun _ _ => rfl) fun _ =>
        given id
    | none =>
      refine .bind (Respects.alike .any) fun isRefused => ?_
      split
      · exact (Respects.abandon (α := Nat)).alike
      · exact .fatal ..

theorem Respects.keyed [g.Within .loud] {index : Nat} {role : Role} {create : Walk Nat}
    (hindex : b ≤ index) (h : Makes b index role create)
    (alike : ∀ {F G}, Indifferent F G b create) :
    Respects g b (keyed index role create) :=
  ⟨fun _ hpos => .keyed h hindex hpos, .keyed alike⟩

instance : Respects g b (change fun s => { s with internalVariables := s.internalVariables + 1 }) :=
  .of_under (fun s h => Keeps.beside s h ..) fun _ _ => rfl

section Keyed

variable [g.Within .loud] {index : Nat} [hindex : From b index]

instance (role : Role) (function : Nat) :
    Respects g b (keyed index role (addSymbol function "$target" (.target none))) :=
  .keyed hindex.le (.target hindex.le function (.inl rfl)) (.addSymbol ..)

instance (function : Nat) (name : String) :
    Respects g b (keyed index .label (addSymbol function name (.target none))) :=
  .keyed hindex.le (.target hindex.le function (.inr rfl)) (.addSymbol ..)

instance (role : Role) (create : Walk Nat) [hcreate : Respects .plain b create] :
    Respects g b (keyed index role create) :=
  .keyed hindex.le (.of_plain hindex.le) hcreate.alike

instance (role : Role) : Respects g b (target index role) := by
  unfold target
  infer_instance

instance (role : Role) (name : String) (type : ValueType) :
    Respects g b (internalLocal index role name type) := by
  unfold internalLocal
  infer_instance

end Keyed

/-! ### Views of symbols -/

/-- A walk that looks something up in the state and breaks off if it is not there. -/
theorem Respects.lookup {x : Walk α} (a? : State → Option α)
    (hx : ∀ s, x s = (a? s).elim (.error .broken s) (.ok · s))
    (ha : ∀ (s : State) (flags : Flags), a? (s.under flags) = a? s) : Respects g b x := by
  refine .of_under (fun s hpos => ?_) fun s flags => ?_
  · rw [hx]
    cases a? s with
    | some a => exact Keeps.same hpos
    | none => exact Keeps.broken hpos
  · rw [hx, hx, ha]
    cases a? s <;> rfl

instance : Respects g b (symbol id) :=
  .lookup (·.table.get? id) (fun s => by unfold symbol; cases s.table.get? id <;> rfl)
    fun _ _ => rfl

/-- A symbol is changed, unless it is missing. -/
theorem modifyKind_cases (id : Nat) (f : SymbolKind → SymbolKind) (s : State) :
    modifyKind id f s = .ok () { s with table := s.table.modifyKind id f } ∨
      modifyKind id f s = .error .broken s :=
  ensure_bind_cases _ (fun _ => change fun s => { s with table := s.table.modifyKind id f }) s

theorem modifyKind_of_lt (f : SymbolKind → SymbolKind) (h : id < s.table.size) :
    modifyKind id f s = .ok () { s with table := s.table.modifyKind id f } :=
  bind_of_ok (ensure_of (by simpa [State.knows] using h))

theorem Keeps.changed {f : SymbolKind → SymbolKind} (hpos : b ≤ s.pos)
    (h : Keeps g b none s { s with table := s.table.modifyKind id f }) :
    Keeps g b (ending (Walk.modifyKind id f s)) s (final (Walk.modifyKind id f s)) := by
  rcases modifyKind_cases id f s with hrun | hrun <;> rw [hrun]
  · exact h
  · exact .broken hpos

theorem grows_mapVariable {f : Variable → Variable} (hkind : ∀ v, (f v).kind = v.kind)
    (hstack : ∀ v, (f v).storage.isStack = v.storage.isStack) (k : SymbolKind) :
    k.Grows (k.mapVariable f) := by
  cases k with
  | var v => exact .ofVar (hkind v) (hstack v)
  | _ => exact .refl _

theorem Keeps.mapVariable [g.Within .idle] (s : State) (hpos : b ≤ s.pos) {f : Variable → Variable}
    (hkind : ∀ v, (f v).kind = v.kind) (hstack : ∀ v, (f v).storage.isStack = v.storage.isStack)
    (literals : 2 ≤ g.rank → ∀ v, (f v).literal = v.literal ∧ (f v).type = v.type) :
    Keeps g b none s { s with table := s.table.modifyKind id (·.mapVariable f) } := by
  refine .modifyKind s hpos s.files (fun k _ => grows_mapVariable hkind hstack k) ?_ ?_ ?_ ?_
  · rintro f₀ f ⟨⟩ h
    exact h
  · intro k
    cases k <;> rfl
  · intro k
    cases k <;> rfl
  · intro hg k v l hk hl
    cases k with
    | var v₀ =>
      cases hk
      exact ⟨v₀, rfl, (literals hg v₀).1 ▸ hl, (literals hg v₀).2.symm⟩
    | _ => cases hk

theorem Keeps.mapFunction [g.Within .idle] (s : State) (hpos : b ≤ s.pos) {f : Function → Function}
    (grows : ∀ x, s.table.kind? id = some (.function x) →
      (SymbolKind.function x).Grows (.function (f x)))
    (counts : ∀ x, x.parameterCount = x.parameterTypes.length →
      (f x).parameterCount = (f x).parameterTypes.length) (code : ∀ x, (f x).code = x.code) :
    Keeps g b none s { s with table := s.table.modifyKind id (·.mapFunction f) } := by
  refine .modifyKind s hpos s.files (fun k hk => ?_) ?_ (fun k => ?_) (fun k => ?_) ?_
  · cases k with
    | function x => exact grows x hk
    | _ => exact .refl _
  · rintro x _ ⟨⟩ h
    exact counts x h
  · cases k with
    | function x => exact code x
    | _ => rfl
  · cases k <;> rfl
  · intro _ k v l hk hl
    cases k with
    | var v₀ =>
      cases hk
      exact ⟨_, rfl, hl, rfl⟩
    | _ => cases hk

/-- A change of a variable that leaves alone what it is to its owner and where it lives. -/
class Settling (f : Variable → Variable) : Prop where
  kind : ∀ v, (f v).kind = v.kind
  storage : ∀ v, (f v).storage = v.storage

instance (type : ValueType) : Settling fun v => { v with type } := ⟨fun _ => rfl, fun _ => rfl⟩

instance (literal : Option Token) : Settling fun v => { v with literal } :=
  ⟨fun _ => rfl, fun _ => rfl⟩

theorem Indifferent.modifyKind (f : SymbolKind → SymbolKind) :
    Indifferent F G b (modifyKind id f) :=
  .bind (Respects.alike .any) fun _ =>
    .change (fun _ h => h) (fun _ => rfl) (fun _ => rfl) fun _ _ => rfl

instance [hg : g.Within .loud] (f : Variable → Variable) [hf : Settling f] :
    Respects g b (modifyVariable id f) where
  run s hpos := by
    exact .changed hpos (.mapVariable s hpos hf.kind (fun v => congrArg _ (hf.storage v))
      fun h => absurd (Nat.le_trans h hg.le) (by decide))
  alike := .modifyKind _

theorem grows_markUsed (k : SymbolKind) : k.Grows k.markUsed := by
  cases k with
  | function f => exact .ofFunction rfl rfl fun _ => ⟨rfl, rfl⟩
  | var v => exact .ofVar rfl rfl
  | _ => exact .refl _

instance [g.Within .idle] : Respects g b (markUsed id) where
  run s hpos := by
    refine .changed hpos (Keeps.modifyKind s hpos s.files (fun k _ => grows_markUsed k) ?_ ?_ ?_ ?_)
    · rintro f₀ f ⟨⟩ h
      exact h
    · intro k
      cases k <;> rfl
    · intro k
      cases k <;> rfl
    · intro _ k v l hk hl
      cases k with
      | var v₀ =>
        cases hk
        exact ⟨v₀, rfl, hl, rfl⟩
      | _ => cases hk
  alike := .modifyKind _

instance : Respects g b (variableType id) := by
  unfold variableType
  refine .seq fun x => ?_
  split <;> infer_instance

instance : Respects g b (variableTraits id) := by
  unfold variableTraits
  refine .seq fun x => ?_
  split <;> infer_instance

instance : Respects g b (slot id) := by
  unfold slot
  refine .seq fun x => ?_
  split <;> infer_instance

instance (index : Register) : Respects g b (indexedSlot id index) := by
  unfold indexedSlot
  refine .seq fun x => ?_
  split <;> infer_instance

/-! ### Finding symbols -/

/-- A search comes to an end, unless a symbol is missing. -/
theorem findChild_cases (scope : Nat) (name : String) (filter : Symbol → Bool) (s : State) :
    findChild scope name filter s = .ok (s.table.find? scope name filter) s ∨
      findChild scope name filter s = .error .broken s :=
  ensure_bind_cases _ (fun _ => view fun s => s.table.find? scope name filter) s

instance : Respects g b scopes := by
  refine .lookup (fun s => scopeChain s.table s.table.size s.scope) (fun s => ?_) fun _ _ => rfl
  unfold scopes
  cases scopeChain s.table s.table.size s.scope <;> rfl

instance (name : String) : Respects g b (lookupLocal name) :=
  .bind (.ensure fun _ _ => rfl) fun _ => .view fun _ _ => rfl

instance (name : String) (filter : Symbol → Bool) : Respects g b (resolve name filter) :=
  .seq fun _ => .seq fun _ => .view fun _ _ => rfl

instance (path : List Token) (scope : Nat) : Respects g b (descend path scope) := by
  induction path generalizing scope with
  | nil => exact inferInstanceAs (Respects g b (pure (some scope)))
  | cons segment rest ih =>
    unfold descend
    refine .seq fun found => ?_
    cases found with
    | some id => exact ih id
    | none => infer_instance

instance (path : List Token) (filter : Symbol → Bool) : Respects g b (resolvePath path filter) := by
  unfold resolvePath
  split
  · infer_instance
  · refine .seq fun found => ?_
    split <;> infer_instance
  · refine .seq fun found => ?_
    split <;> infer_instance

instance (path : List Token) : Respects g b (candidates path) := by
  unfold candidates
  dsimp only
  split
  · infer_instance
  · exact .seq fun _ => .seq fun _ => .view fun _ _ => rfl
  · refine .seq fun found => ?_
    split <;> infer_instance

instance : Respects g b qualifiedPath := by
  unfold qualifiedPath
  infer_instance

/-! ### Code -/

theorem grows_code (f : Array Instruction → Array Instruction) (k : SymbolKind) :
    k.Grows (k.mapFunction fun x => { x with code := f x.code }) := by
  cases k with
  | function x => exact .ofFunction rfl rfl fun h => ⟨h, rfl⟩
  | _ => exact .refl _

theorem insertIdx_eq_take_drop {γ : Type} (x : γ) (i : Nat) (l : List γ) (h : i ≤ l.length) :
    l.insertIdx i x = l.take i ++ x :: l.drop i := by
  induction i generalizing l with
  | zero => simp
  | succ i ih =>
    cases l with
    | nil => simp at h
    | cons a l => simpa using ih l (by simpa using h)

/-- Where an instruction is put into the code of the current function, what is in front of it and
    what is behind it stay. -/
theorem code_emit_insertAt (s : State) (op : Opcode) (operands : List Operand) (place : Nat) :
    (s.emit op operands (some place)).table.code s.function = s.table.code s.function ∧
        s.table.function? s.function = none ∨
      (s.emit op operands (some place)).table.code s.function =
        (s.table.code s.function).take place ++
          (op, operands) :: (s.table.code s.function).drop place := by
  obtain ⟨i, files, hop, h⟩ := s.emit_eq op operands (some place)
  rw [h]
  unfold Table.code Table.function?
  rw [Table.kind?_modifyKind, if_pos rfl]
  cases s.table.kind? s.function with
  | none => exact .inl ⟨rfl, rfl⟩
  | some k =>
    cases k with
    | function f =>
      refine .inr ?_
      show (insertAt f.code place i).toList.map Instruction.op =
        (f.code.toList.map Instruction.op).take place ++
        (op, operands) :: (f.code.toList.map Instruction.op).drop place
      rw [← List.map_take, ← List.map_drop, ← hop]
      unfold insertAt
      split
      -- Within the code the instruction is inserted,
      · next hle =>
        rw [Array.toList_insertIdx, insertIdx_eq_take_drop i place _ (by simpa using hle)]
        simp
      -- and past its end it is appended.
      · next hle =>
        have hlength : f.code.toList.length ≤ place := by
          rw [Array.length_toList]
          omega
        rw [List.take_of_length_le hlength, List.drop_eq_nil_of_le hlength]
        simp
    | _ => exact .inl ⟨rfl, rfl⟩
theorem Keeps.emitted [hg : g.Within .plain] (hpos : b ≤ s.pos) (hpass : s.pass = .emit)
    (opcode : Opcode) (operands : List Operand) (place : Option Nat)
    (hplace : g.appends = true → place = none) :
    Keeps g b none s (s.emit opcode operands place) := by
  obtain ⟨i, files, -, h⟩ := s.emit_eq opcode operands place
  have hhistory := carries_emit g.binds (p := fun _ => g.appends = true) s opcode operands place
    fun _ hg q hq => by cases (hplace hg).symm.trans hq
  rw [h] at hhistory ⊢
  refine Keeps.modifyCode s hpos _
    (fun k _ => grows_code (putAt · place i) k) ?_ ?_ ?_ ?_ ?_ hhistory
  · rintro f₀ f ⟨⟩ h
    exact h
  -- Only the code of the current function changes, and only in the second walk.
  · rintro (h | ⟨-, h⟩ | h)
    · rw [hpass] at h
      cases h
    · exact absurd rfl h
    · exact absurd (Nat.le_trans h hg.le) (by decide)
  · intro hg k
    cases k with
    | function f =>
      rw [hplace hg]
      simp [SymbolKind.mapFunction, SymbolKind.code, putAt]
    | _ => exact List.prefix_rfl
  · intro _ k
    cases k <;> rfl
  · intro _ k v l hk hl
    cases k with
    | var v₀ =>
      cases hk
      exact ⟨_, rfl, hl, rfl⟩
    | _ => cases hk

/-- What the second walk alone does to the current function. -/
theorem Indifferent.emitted {holds : State → Bool} {f : State → State}
    (hholds : ∀ s flags, holds (s.under flags) = holds s) (hpos : ∀ s, b ≤ s.pos → b ≤ (f s).pos)
    (hlog : ∀ s, (f s).log = s.log) (htokens : ∀ s, (f s).tokens = s.tokens)
    (h : ∀ s flags, f (s.under flags) = (f s).under flags) : Indifferent F G b (do
      if ← emitting then
        ensure holds
        Walk.change f) := by
  refine .bind (Respects.alike .any) fun isEmitting => ?_
  split
  · exact .bind (Respects.ensure (g := .any) hholds).alike fun _ => .change hpos hlog htokens h
  · exact (inferInstance : Respects .any b (pure () : Walk Unit)).alike

section Emitting

variable (place : Nat) (opcode : Opcode) (operands : List Operand) {s : State}

theorem emit_of_declare (hpass : s.pass = .declare) : emit opcode operands s = .ok () s := by
  unfold Walk.emit
  rw [emitting_bind_declare hpass]
  rfl

theorem emitAt_of_declare (hpass : s.pass = .declare) :
    emitAt place opcode operands s = .ok () s := by
  unfold emitAt
  rw [emitting_bind_declare hpass]
  rfl

/-- The current function gets an instruction, unless it is missing. -/
theorem emit_of_emit (hpass : s.pass = .emit) :
    emit opcode operands s = .ok () (s.emit opcode operands none) ∨
      emit opcode operands s = .error .broken s := by
  unfold Walk.emit
  rw [emitting_bind_emit hpass, if_pos rfl]
  exact ensure_bind_cases _ (fun _ => change (·.emit opcode operands none)) s

theorem emitAt_of_emit (hpass : s.pass = .emit) :
    emitAt place opcode operands s = .ok () (s.emit opcode operands (some place)) ∨
      emitAt place opcode operands s = .error .broken s := by
  unfold emitAt
  rw [emitting_bind_emit hpass, if_pos rfl]
  exact ensure_bind_cases _ (fun _ => change (·.emit opcode operands (some place))) s

theorem state_of_emit {s' : State} {u : Unit} (hpass : s.pass = .emit)
    (h : emit opcode operands s = .ok u s') : s' = s.emit opcode operands none := by
  rcases emit_of_emit opcode operands hpass with hrun | hrun
  · cases h.symm.trans hrun
    rfl
  · cases h.symm.trans hrun

instance [g.Within .plain] : Respects g b (emit opcode operands) where
  run s hpos := by
    rcases s.pass_cases with hpass | hpass
    · rw [emit_of_declare opcode operands hpass]
      exact Keeps.same hpos
    · rcases emit_of_emit opcode operands hpass with hrun | hrun <;> rw [hrun]
      · exact .emitted hpos hpass opcode operands _ fun _ => rfl
      · exact Keeps.broken hpos
  alike := .emitted (fun _ _ => rfl) (fun _ h => h) (fun _ => rfl) (fun _ => rfl) fun _ _ => rfl

instance [hg : g.Within .patching] : Respects g b (emitAt place opcode operands) where
  run s hpos := by
    rcases s.pass_cases with hpass | hpass
    · rw [emitAt_of_declare place opcode operands hpass]
      exact Keeps.same hpos
    · rcases emitAt_of_emit place opcode operands hpass with hrun | hrun <;> rw [hrun]
      · refine Keeps.emitted hpos hpass opcode operands (some place) fun h => ?_
        exact absurd (hg.appends h) (by decide)
      · exact Keeps.broken hpos
  alike := .emitted (fun _ _ => rfl) (fun _ h => h) (fun _ => rfl) (fun _ => rfl) fun _ _ => rfl

end Emitting

theorem grows_kind_placed (place : Nat) (k : SymbolKind) : k.Grows (placed place k) := by
  cases k with
  | target bound => exact .ofTarget ..
  | _ => exact .refl _

theorem bind_of_declare (hpass : s.pass = .declare) : Walk.bind id s = .ok () s := by
  unfold Walk.bind
  rw [emitting_bind_declare hpass]
  rfl

/-- The second walk binds a target, unless one is missing. -/
theorem bind_of_emit (id : Nat) {t : State} (hpass : t.pass = .emit) :
    Walk.bind id t = .ok () (t.bind id) ∨ Walk.bind id t = .error .broken t := by
  unfold Walk.bind
  rw [emitting_bind_emit hpass, if_pos rfl]
  exact ensure_bind_cases _ (fun _ => change (·.bind id)) t

theorem state_of_bind {t t' : State} {d : Unit} (hpass : t.pass = .emit)
    (h : Walk.bind id t = .ok d t') : t' = t.bind id := by
  rcases bind_of_emit id hpass with hrun | hrun
  · cases h.symm.trans hrun
    rfl
  · cases h.symm.trans hrun

instance [hg : g.Within .loud] (target : Nat) : Respects g b (bind target) where
  run s hpos := by
    have low : ¬ 2 ≤ g.rank := fun h => absurd (Nat.le_trans h hg.le) (by decide)
    rcases s.pass_cases with hpass | hpass
    · rw [bind_of_declare hpass]
      exact Keeps.same hpos
    · rcases bind_of_emit target hpass with hrun | hrun <;> rw [hrun]
      -- Binding leaves all code as it is.
      · have same : ∀ k, (placed s.here k).code = k.code := fun k => by cases k <;> rfl
        refine Keeps.modifyCode s hpos s.files (fun k _ => grows_kind_placed s.here k) ?_
          (fun _ => same)
          (fun _ k => same k ▸ List.prefix_rfl) ?_ (fun h => absurd h low)
          ⟨[_], rfl, (carries_bind s target).weaken (fun h => absurd (g.binds_eq_false.1 h) low)
            fun _ h => h⟩
        · rintro f₀ f ⟨⟩ h
          exact h
        · rintro (h | h)
          · rw [hpass] at h
            cases h
          · exact absurd h low
      · exact Keeps.broken hpos
  alike := .emitted (fun _ _ => rfl) (fun _ h => h) (fun _ => rfl) (fun _ => rfl) fun _ _ => rfl

instance (t : ValueType) (op : Operation) : Respects g b (opcodeFor t op) := by
  unfold opcodeFor
  split <;> infer_instance

end StateScript.Walk
