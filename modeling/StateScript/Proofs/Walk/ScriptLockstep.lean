import StateScript.Proofs.Walk.SwitchLockstep

/-! # Scripts in step

  Statements of all kinds are in step, however deep they are nested, and so are the two
  walks over a whole script. If the second ends without an error, it has found again
  exactly what the first has declared.
-/

namespace StateScript.Walk

variable {id : Nat} {s t : State} {x : Walk Unit}

set_option synthInstance.maxSize 1000000000

variable {k : Mode} {b : Nat} {o : Nat → Prop}

/-! ### Statements that may be abandoned -/

/-- The first walk goes on where the second has gone. -/
theorem Closes.resumption {t' : State} (h : Closes k o [] t s t') :
    resumption t.tokens t.pos s.pos = t'.pos := by
  obtain ⟨last, hlast, hbrace, hpos⟩ := h.after
  obtain ⟨u, hu, hkind⟩ := Option.map_eq_some_iff.1 hbrace
  have hsize := (Array.getElem?_eq_some_iff.1 hu).1
  -- One brace is open where the walk was abandoned.
  have hbalance : braceBalance (t.tokens.extract t.pos s.pos).toList = 1 := by
    rw [braceBalance_nested h.before]
    rfl
  have hend : statementEnd t.tokens s.pos 1 = last + 1 := by
    have hle : s.pos ≤ t.tokens.size := Nat.le_trans hlast.le (Nat.le_of_lt hsize)
    have hskips := statementEnd_nested hlast Nat.zero_lt_one hle
    simp only [List.length_nil, Nat.zero_add] at hskips
    rw [hskips]
    unfold statementEnd
    exact scanFrom_done hu (by rw [hkind]; rfl)
  unfold Walk.resumption
  dsimp only
  rw [hbalance, show (1 : Int).toNat = 1 from rfl, hend, hpos, if_neg]
  have := h.before.le
  have := hlast.le
  simp only [Bool.and_eq_true, decide_eq_true_eq]
  omega

/-- Both walks get through a statement, or the first abandons it between two braces. -/
structure Together (k : Mode) (o : Nat → Prop) (x : Walk Unit) : Prop where
  ok : ∀ {s t t' : State}, Abreast k o s t → Known k (x s) t → x t = .ok () t' →
    t'.log.hasErrors = false →
    (∃ s', x s = .ok () s' ∧ Abreast k o s' t') ∨
    ∃ s', x s = .error .abandoned s' ∧ Closes k o [] t s' t'
  stop : ∀ {s t t' : State} {e : Stop}, Abreast k o s t → Known k (x s) t → x t = .error e t' →
    Accounted e t'

theorem Together.of_inStep (h : InStep k 0 o x x o) : Together k o x where
  ok {s _ _} habreast hknown hrun hlog := by
    rcases h.ok (Nat.zero_le s.pos) habreast hknown hrun hlog with
        ⟨h, -⟩ | ⟨_, s', hs', -, habreast'⟩
    · cases h
    · exact .inl ⟨s', hs', habreast'⟩
  stop {s _ _ _} habreast hknown hrun := h.stop (Nat.zero_le s.pos) habreast hknown hrun

/-- A statement is known as it is before the walk goes on after it. -/
theorem Known.guarded [rx : Respects .any 0 x] (h : Known k (Walk.guarded x s) t) :
    Known k (x s) t := by
  cases hrun : x s with
  | ok a s₁ =>
    rw [guarded_of_ok hrun] at h
    exact h
  | error e s₁ =>
    by_cases he : e = .abandoned
    · subst he
      have hkeeps := rx.error (Nat.zero_le _) hrun
      obtain ⟨blocks, hrecover⟩ := State.recover_eq hkeeps
      rw [guarded_of_abandoned hrun] at h
      split at h
      · rw [hrecover] at h
        refine ⟨?_, h.log, h.recorded, fun hk => ⟨(h.holds hk).table, ?_⟩⟩
        · rintro (h | h) <;> cases h
        -- The walk resumes behind the place, and so do all later records.
        obtain ⟨later, hlater, hbehind⟩ := (h.holds hk).later
        exact ⟨later, hlater, fun d hd => Nat.le_trans (le_resumption ..) (hbehind d hd)⟩
      · exact absurd (.inr rfl) h.ends
    · rw [guarded_of_error hrun he] at h
      exact h

/-- What the second walk has found while it was alone would have to be among the records,
    and these are all older or later. -/
theorem Parts.recalled {t₀ : State} (h : Parts k o t.pos s t) (hdeclared : t.declared = t₀.declared)
    {later : List Declared} (hlater : t₀.declared = later ++ s.declared)
    (hbehind : ∀ d ∈ later, t.pos ≤ d.token) (hk : k.isClose = true) : t.recalled = s.declared := by
  rcases h.close hk with hclose | ⟨r, -, hfrom, hbefore, hr⟩
  · exact hclose.records
  · unfold Found at hr
    obtain ⟨d, hd, -⟩ := Option.map_eq_some_iff.1 hr
    have hmem := List.mem_of_find?_eq_some hd
    -- A record that is found would stand between the two walks.
    have htoken := List.find?_some hd
    simp only [Bool.and_eq_true, beq_iff_eq] at htoken
    rw [hdeclared, hlater] at hmem
    rcases List.mem_append.1 hmem with hmem | hmem
    · have := hbehind d hmem
      omega
    · have := h.past hk d hmem
      omega

/-- Where the first walk has abandoned a statement, both are abreast behind it. -/
theorem Together.guarded [rx : Respects .adding 0 x] (h : Together k o x) :
    InStep k b o (Walk.guarded x) (Walk.guarded x) o where
  run {s t} _ habreast hknown := by
    refine ⟨fun {d t'} hrun hlog => ?_, fun {e t'} hrun => ?_⟩
    -- A stop is that of the statement itself, as what it abandons is gone on from.
    rotate_left
    · cases hrun' : x t with
      | ok a t₁ => cases (guarded_of_ok hrun').symm.trans hrun
      | error e' t₁ =>
        by_cases he : e' = .abandoned
        · subst he
          rw [guarded_of_abandoned hrun'] at hrun
          split at hrun <;> cases hrun
          exact ⟨nofun, nofun⟩
        · cases (guarded_of_error hrun' he).symm.trans hrun
          exact h.stop habreast hknown.guarded hrun'
    cases hrun' : x t with
    | error e t₁ =>
      by_cases he : e = .abandoned
      · subst he
        have hstop := (h.stop habreast hknown.guarded hrun').abandoned rfl
        rw [guarded_of_abandoned hrun'] at hrun
        split at hrun
        · cases hrun
          cases hstop.symm.trans hlog
        · cases hrun
      · rw [guarded_of_error hrun' he] at hrun
        cases hrun
    | ok a t₁ =>
      cases (guarded_of_ok hrun').symm.trans hrun
      rcases h.ok habreast hknown.guarded hrun' hlog with ⟨s', hs', habreast'⟩ | ⟨s', hs', hcloses⟩
      · exact .inr ⟨(), s', guarded_of_ok hs', trivial, habreast'⟩
      · have hkeeps := rx.error (Nat.zero_le _) hs'
        obtain ⟨blocks, hrecover⟩ := State.recover_eq hkeeps
        have hresumes : resumption s'.tokens s.pos s'.pos = t'.pos := by
          rw [hkeeps.tokens, ← habreast.tokens, ← habreast.pos, hcloses.resumption]
        have hguarded := guarded_of_abandoned hs'
        split at hguarded
        · rw [hrecover, hresumes] at hguarded
          rw [hguarded] at hknown ⊢
          refine .inr ⟨(), _, rfl, trivial, ?_⟩
          have habreast' : Abreast k o { s' with pos := t'.pos } t' := by
            refine hcloses.parts.abreast fun hk => ?_
            obtain ⟨later, hlater, hbehind⟩ := (hknown.holds hk).later
            have hdeclared := (rx.ok (Nat.zero_le _) hrun').emit habreast.second
            exact hcloses.parts.recalled hdeclared.1 hlater hbehind hk
          exact habreast'.apart ⟨rfl, rfl, rfl, rfl, rfl, rfl, rfl, rfl, rfl⟩
            ⟨rfl, rfl, rfl, rfl, rfl, rfl, rfl, rfl, rfl⟩
              (habreast'.alike.control rfl rfl) habreast'.inside
        · rw [hguarded] at hknown
          exact absurd (.inr rfl) hknown.ends

/-! ### All statements -/

/-- A statement, when the kind of its first token is known. -/
def statementOf (inner : Walk Unit) (found : Option Kind) : Walk Unit :=
  match found with
  | none => return
  | some .semicolon => skip
  | some .openBrace => block inner
  | some .openBracket => metadataBlock
  | some .kwState => stateDeclaration inner
  | some .kwEnum => enumerationDeclaration
  | some .kwNamespace => namespaceDeclaration inner
  | some .kwIf => ifStatement inner
  | some .kwWhile => whileStatement inner
  | some .kwDo => doStatement inner
  | some .kwFor => forStatement inner
  | some .kwSwitch => switchStatement inner
  | some .kwReturn => returnStatement
  | some .kwBreak => breakStatement
  | some .kwContinue => continueStatement
  | some .kwGoto => gotoStatement
  | some .kwGotoState => gotoStateStatement
  | some .kwLock => exclusiveStatement inner .lock
  | some .kwAtom => exclusiveStatement inner .atom
  | some .kwBreakpoint => breakpointStatement
  | some .kwCase | some .kwDefault | some .kwElse => unexpected "outside its statement"
  | some .identifier => do
    if (← peekAt 1) == some .colon then labelStatement else plainStatement
  | some kind => if startsDeclaration kind then declaration inner else plainStatement

theorem statementWith_eq (inner : Walk Unit) :
    statementWith inner = peek >>= statementOf inner := rfl

section Inner

variable (inner : Walk Unit) [∀ b, Respects .adding b inner] [∀ b, Respects .loud b inner]
  (hinner : ∀ k b o, InStep k b o inner inner o)
include hinner

/-- All statements but switches. -/
theorem inStep_statementOf {found : Option Kind} (hfound : found ≠ some .kwSwitch) :
    InStep k b o (statementOf inner found) (statementOf inner found) o := by
  unfold statementOf
  split
  · exact .pure trivial fun _ h => h
  · exact .of_agrees .same
  · exact inStep_block inner hinner
  · exact inStep_metadataBlock
  · exact inStep_stateDeclaration inner hinner
  · exact inStep_enumerationDeclaration
  · exact inStep_namespaceDeclaration inner hinner
  · exact inStep_ifStatement inner hinner
  · exact inStep_whileStatement inner hinner
  · exact inStep_doStatement inner hinner
  · exact inStep_forStatement inner hinner
  · exact absurd rfl hfound
  · exact inStep_returnStatement
  · exact inStep_breakStatement
  · exact inStep_continueStatement
  · exact inStep_gotoStatement
  · exact inStep_gotoStateStatement
  · exact inStep_exclusiveStatement inner hinner .lock
  · exact inStep_exclusiveStatement inner hinner .atom
  · exact inStep_breakpointStatement
  · exact .never
  · exact .never
  · exact .never
  · exact .bind_blind fun next => .ite (fun _ => inStep_labelStatement) fun _ =>
      inStep_plainStatement
  · exact .ite (fun _ => inStep_declaration inner hinner) fun _ => inStep_plainStatement

variable [Advances inner] [∀ cs, Nests .braces none cs cs inner]

theorem together_statementWith : Together k o (statementWith inner) := by
  have ahead : ∀ s : State, peek s = .ok (s.tokens[s.pos]?.map Token.kind) s := fun _ => rfl
  have same : ∀ {s t : State}, Abreast k o s t →
      t.tokens[t.pos]?.map Token.kind = s.tokens[s.pos]?.map Token.kind := by
    intro s t habreast
    rw [habreast.tokens, habreast.pos]
  have loud : Respects .loud 0 (switchStatement inner) := inferInstance
  rw [statementWith_eq]
  constructor
  · intro s t t' habreast hknown hrun hlog
    rw [bind_of_ok (ahead s)] at hknown ⊢
    rw [bind_of_ok (ahead t), same habreast] at hrun
    by_cases hswitch : s.tokens[s.pos]?.map Token.kind = some .kwSwitch
    · rw [hswitch] at hknown hrun ⊢
      refine switchStatement_cases inner hinner habreast ?_ hknown hrun hlog
      rintro _ ⟨⟩
      rw [same habreast, hswitch]
    · exact (Together.of_inStep (inStep_statementOf inner hinner hswitch)).ok habreast hknown
        hrun hlog
  · intro s t t' e habreast hknown hrun
    rw [bind_of_ok (ahead s)] at hknown
    rw [bind_of_ok (ahead t), same habreast] at hrun
    -- Where the second walk stops at a switch there is a switch in the script.
    by_cases hswitch : s.tokens[s.pos]?.map Token.kind = some .kwSwitch
    · rw [hswitch] at hrun
      have hkeeps := loud.error (Nat.zero_le _) hrun
      refine ⟨fun he => ?_, fun _ _ => .inr ?_⟩
      · exact hkeeps.loud (Nat.le_refl _) (congrArg some he) habreast.second habreast.faithful
      · obtain ⟨x, hx, hkind⟩ := Option.map_eq_some_iff.1 ((same habreast).trans hswitch)
        exact ⟨x, hkeeps.tokens.symm ▸ Array.mem_of_getElem? hx, hkind⟩
    · exact (Together.of_inStep (inStep_statementOf inner hinner hswitch)).stop habreast hknown hrun

end Inner

/-- Statements are in step however deep they are nested. -/
theorem together_statementUpTo (n : Nat) : ∀ k o, Together k o (statementUpTo n) := by
  induction n with
  | zero =>
    intro k o
    constructor
    · intro _ _ _ _ _ hrun
      cases hrun
    · intro _ _ _ _ _ _ hrun
      cases hrun
      exact ⟨nofun, nofun⟩
  | succ n ih =>
    intro k o
    have loud : ∀ b, Respects .loud b (guarded (statementUpTo n)) := inferInstance
    have adding : ∀ b, Respects .adding b (guarded (statementUpTo n)) := fun b => (loud b).weaken
    exact together_statementWith (guarded (statementUpTo n)) fun k b o => (ih k o).guarded

theorem inStep_statement : InStep k b o statement statement o := by
  unfold statement
  exact .bind_blind fun n => (together_statementUpTo _ k o).guarded

theorem inStep_statements : InStep k b o statements statements o := by
  have loud : ∀ b, Respects .loud b statement := inferInstance
  have adding : ∀ b, Respects .adding b statement := fun b => (loud b).weaken
  unfold statements
  refine (Marches.loop (fun b _ => inferInstance) (fun _ => .bind_blind fun isEnd => ?_) ()).mono
    (fun _ _ _ => trivial) fun _ _ h => h
  refine .ite (fun _ => .pure rfl fun _ h => h) fun _ => ?_
  exact .bind inStep_statement fun _ _ _ => .pure rfl fun _ h => h

/-! ### Whole scripts -/

theorem size_initialTable : initialTable.size = 2 := rfl

/-- The table that every compilation starts with has two symbols without an owner. -/
theorem get?_initialTable {x : Symbol} (h : initialTable.get? id = some x) :
    (id = globalScope ∧ x.kind = .function {} ∨ id = memberScope ∧ x.kind = .space) ∧
      x.scope = none ∧ x.children = [] := by
  have hlt := Table.get?_lt h
  rw [size_initialTable] at hlt
  have hid : id = 0 ∨ id = 1 := by omega
  rcases hid with rfl | rfl
  · cases h
    exact ⟨.inl ⟨rfl, rfl⟩, rfl, rfl⟩
  · cases h
    exact ⟨.inr ⟨rfl, rfl⟩, rfl, rfl⟩

theorem scope?_initialTable (id : Nat) : initialTable.scope? id = none := by
  cases hx : initialTable.get? id with
  | none => rw [Table.scope?, hx, Option.bind_none]
  | some x => rw [Table.scope?, hx, Option.bind_some, (get?_initialTable hx).2.1]

theorem children_initialTable (id : Nat) : initialTable.children id = [] := by
  cases hx : initialTable.get? id with
  | none => rw [Table.children, hx]
  | some x => rw [Table.children_of_get? hx, (get?_initialTable hx).2.2]

theorem kind?_initialTable {k : SymbolKind} (h : initialTable.kind? id = some k) :
    id = globalScope ∧ k = .function {} ∨ id = memberScope ∧ k = .space := by
  obtain ⟨x, hx, rfl⟩ := Table.kind?_eq_some.1 h
  exact (get?_initialTable hx).1

theorem wellFormed_initialTable : initialTable.WellFormed where
  toForest := (Table.forest_empty.addRoot _ _).addRoot _ _
  root id h _ := by
    rw [size_initialTable] at h
    omega
  counts id f h := by
    rcases kind?_initialTable (Table.function?_eq_some.1 h) with ⟨-, hk⟩ | ⟨-, hk⟩ <;> cases hk
    rfl

theorem fits_initialTable : Fits initialTable := by
  intro id v l hv
  obtain ⟨k, hk, hvar⟩ := Option.bind_eq_some_iff.1 hv
  rcases kind?_initialTable hk with ⟨-, rfl⟩ | ⟨-, rfl⟩ <;> cases hvar

theorem code_initialTable (id : Nat) : initialTable.code id = [] := by
  unfold Table.code
  cases hk : initialTable.kind? id with
  | none => rfl
  | some k => rcases kind?_initialTable hk with ⟨-, rfl⟩ | ⟨-, rfl⟩ <;> rfl

theorem bound?_initialTable (id : Nat) : initialTable.bound? id = none := by
  unfold Table.bound?
  cases hk : initialTable.kind? id with
  | none => rfl
  | some k => rcases kind?_initialTable hk with ⟨-, rfl⟩ | ⟨-, rfl⟩ <;> rfl

theorem begin_initial (flags : Flags) (tokens : List Token) :
    (State.initial flags tokens).begin .declare = .initial flags tokens := rfl

theorem walkOver_run (pass : Pass) (s : State) : walkOver pass s = statements (s.begin pass) := rfl

section Script

variable {flags : Flags} {tokens : List Token} {s t : State}
  (hfirst : walkOver .declare (.initial flags tokens) = .ok () s)
include hfirst

/-- The second walk knows all of the first. -/
theorem known_first (hlog : s.log.hasErrors = false) :
    Known .close (statements (.initial flags tokens)) (s.begin .emit) := by
  rw [walkOver_run, begin_initial] at hfirst
  rw [hfirst]
  exact ⟨not_doomed_ok () s, hlog, ⟨[], rfl⟩, fun _ => ⟨.refl _, [], rfl, nofun⟩⟩

/-- What the first walk keeps of the state that it starts in. -/
theorem keeps_first : Keeps .adding 0 none (.initial flags tokens) s := by
  rw [walkOver_run, begin_initial] at hfirst
  have loud : Respects .loud 0 statements := inferInstance
  have adding : Respects .adding 0 statements := loud.weaken
  exact adding.ok (Nat.zero_le _) hfirst

theorem abreast_begin : Abreast .close (fun _ => False) (.initial flags tokens)
    (s.begin .emit) := by
  have hkeeps := keeps_first hfirst
  obtain ⟨new, hnew, hfound⟩ := hkeeps.recalls
  have hrecalled : s.recalled = [] := by
    cases new with
    | nil => exact hnew
    | cons r new => cases (hfound r (List.mem_cons_self ..)).1
  refine ⟨⟨rfl, rfl, hkeeps.tokens, rfl, rfl, fits_initialTable, hkeeps.running rfl⟩,
    ⟨rfl, rfl, rfl, fun _ => rfl⟩, wellFormed_initialTable, ?_, nofun, fun _ => ?_⟩
  · exact hkeeps.faithful (fun h => absurd rfl h)
  · refine ⟨hrecalled, nofun, ?_, ?_⟩ <;> show ∀ r ∈ s.recalled, _ <;> rw [hrecalled] <;> nofun

/-- Where the second walk ends the compilation, it has not failed by itself. -/
theorem excused_second (hsecond : walkOver .emit s = .error .fatal t) : Excused t := by
  have loud : Respects .loud 0 statements := inferInstance
  have habreast := abreast_begin hfirst
  rw [walkOver_run] at hsecond
  cases hlog : s.log.hasErrors with
  | true =>
    have hkeeps := loud.error (Nat.zero_le _) hsecond
    exact (Accounted.of_errors hkeeps.log habreast.running hlog).fatal rfl
  | false => exact (inStep_statements.stop (Nat.zero_le _) habreast (known_first hfirst hlog)
      hsecond).fatal rfl

variable (hsecond : walkOver .emit s = .ok () t)
include hsecond

omit hfirst in
theorem keeps_second : Keeps .adding 0 none (s.begin .emit) t := by
  rw [walkOver_run] at hsecond
  have loud : Respects .loud 0 statements := inferInstance
  have adding : Respects .adding 0 statements := loud.weaken
  exact adding.ok (Nat.zero_le _) hsecond

variable (hlog : t.log.hasErrors = false)
include hlog

/-- Both walks over a script end abreast. -/
theorem abreast_walks : Abreast .close (fun _ => False) s t := by
  have hknown := known_first hfirst (hasErrors_eq_false_mono (keeps_second hsecond).log hlog)
  have hrun := hfirst
  rw [walkOver_run, begin_initial] at hrun
  rw [walkOver_run] at hsecond
  rcases (inStep_statements).ok (Nat.zero_le _) (abreast_begin hfirst) hknown hsecond hlog with
    ⟨h, -⟩ | ⟨_, s', hs', -, habreast⟩
  · cases h
  · cases hrun.symm.trans hs'
    exact habreast

/-- The second walk finds what the first has declared, in the same order. -/
theorem recalled_eq_declared : t.recalled = t.declared := by
  rw [((abreast_walks hfirst hsecond hlog).close rfl).records]
  exact ((keeps_second hsecond).emit rfl).1.symm

omit hlog in
/-- Every target has a record. -/
theorem exists_record {x : Symbol} (hx : t.table.get? id = some x)
    (htarget : x.kind.isTarget = true) : ∃ d ∈ t.declared, d.symbol = id := by
  have hkeeps := keeps_first hfirst
  have hkeeps' := keeps_second hsecond
  -- A target is older than the second walk, or made by it.
  by_cases hold : id < s.table.size
  · obtain ⟨x₁, hx₁⟩ := Table.exists_get? hold
    obtain ⟨x', hx', hgrows⟩ := hkeeps'.table id x₁ hx₁
    cases hx.symm.trans hx'
    have htarget₁ : x₁.kind.isTarget = true :=
      (isTarget_eq_of_tag hgrows.kind.tag).symm.trans htarget
    by_cases hnew : initialTable.size ≤ id
    · obtain ⟨d, hd, hid, -⟩ := hkeeps.targets id x₁ hnew hx₁ htarget₁
      exact ⟨d, (hkeeps'.emit rfl).1 ▸ hd, hid⟩
    · -- The first two symbols are no targets.
      obtain ⟨x₀, hx₀⟩ := Table.exists_get? (Nat.lt_of_not_le hnew)
      obtain ⟨x', hx', hgrows⟩ := hkeeps.table id x₀ hx₀
      cases hx₁.symm.trans hx'
      rw [isTarget_eq_of_tag hgrows.kind.tag] at htarget₁
      rcases (get?_initialTable hx₀).1 with ⟨-, hk⟩ | ⟨-, hk⟩ <;> rw [hk] at htarget₁ <;>
        cases htarget₁
  · obtain ⟨d, hd, hid, -⟩ := hkeeps'.targets id x (Nat.le_of_not_lt hold) hx htarget
    exact ⟨d, hd, hid⟩

/-- Every target is bound in the end. -/
theorem bound_of_target {x : Symbol} (hx : t.table.get? id = some x)
    (htarget : x.kind.isTarget = true) : ∃ place, x.kind = .target (some place) := by
  obtain ⟨d, hd, rfl⟩ := exists_record hfirst hsecond hx htarget
  rw [← recalled_eq_declared hfirst hsecond hlog] at hd
  have hkind : t.table.kind? d.symbol = some x.kind := Table.kind?_eq_some.2 ⟨x, hx, rfl⟩
  -- At the end no target is open.
  obtain ⟨k, hk, hopen⟩ := ((abreast_walks hfirst hsecond hlog).close rfl).settled d hd nofun
  cases hk.symm.trans hkind
  cases hkind' : x.kind with
  | target bound =>
    rw [hkind'] at hopen
    obtain ⟨place, hplace⟩ := Option.ne_none_iff_exists'.1 fun h : bound = none =>
      hopen (congrArg _ h)
    exact ⟨place, congrArg _ hplace⟩
  | _ =>
    rw [hkind'] at htarget
    cases htarget

end Script

end StateScript.Walk
