import StateScript.Proofs.Walk.DeclarationCourse
import StateScript.Proofs.Walk.ScriptLockstep

/-! # The course of statements

  The statements inside of functions jump to targets of their own function and bind them
  there; loops hand theirs down to `break` and `continue`, and a `goto` finds the label among
  the targets of the function. With them every statement takes a course, and so does a walk
  over a whole script.
-/

-- Rules with many parts are taken apart by instance search in one go.
set_option synthInstance.maxSize 1000000000

namespace StateScript.Walk

variable {α β : Type} {T : Table} {o : Prospect} {f : Nat} {start stop : Nat}

/-! ### Targets -/

/-- A target, which the rest may jump to and bind. -/
theorem Charted.target (hf : f ≠ globalScope) {role : Role} (hrole : role.isTarget = true)
    (index : Nat) {k : Nat → Walk β} (hk : ∀ id, o.table.IsTargetOf id f → Charted o f (k id))
    (hr : ∀ a, Respects .any 0 (k a) := by
      intro a
      repeat' first
        | infer_instance
        | split
        | refine Respects.seq fun _ => ?_) :
    Charted o f (target index role >>= k) :=
  (charted_target hf hrole index).bind_gives (gives_target hrole index) hk hr

theorem Charted.internalLocal (hf : f ≠ globalScope) {role : Role}
    (hrole : role = .counter ∨ role = .limit ∨ role = .value) (index : Nat) (name : String)
    (type : ValueType) {k : Nat → Walk β} (hk : ∀ id, o.table.IsLocal id → Charted o f (k id))
    (hr : ∀ a, Respects .any 0 (k a) := by
      intro a
      repeat' first
        | infer_instance
        | split
        | refine Respects.seq fun _ => ?_) :
    Charted o f (internalLocal index role name type >>= k) :=
  (charted_internalLocal hf hrole index name type).bind_gives
    (gives_internalLocal hrole index name type)
    hk hr

theorem charted_jump (hf : f ≠ globalScope) {id : Nat} (hid : o.table.IsTargetOf id f)
    (op : Opcode) : Charted o f (jump op id) where
  respects := inferInstance
  run s hinside := by
    unfold jump
    rcases s.pass_cases with hpass | hpass
    · rw [emit_of_declare op _ hpass]
      exact .of_course (.refl s)
    · rw [← hinside.function] at hf hid
      rcases emit_of_emit op [.target id] hpass with hrun | hrun <;> rw [hrun]
      · exact .of_course (.move (.jump hpass hf hid))
      · exact .of_course (.refl s)

theorem charted_bindTarget (hf : f ≠ globalScope) {id : Nat} (hid : o.table.IsTargetOf id f) :
    Charted o f (Walk.bind id) where
  respects := inferInstance
  run s hinside := by
    rcases s.pass_cases with hpass | hpass
    · rw [bind_of_declare hpass]
      exact .of_course (.refl s)
    · rw [← hinside.function] at hf hid
      rcases bind_of_emit id hpass with hrun | hrun <;> rw [hrun]
      · exact .of_course (.move (.bind hpass hf hid))
      · exact .of_course (.refl s)

/-! ### Loops that carry something along -/

/-- A turn that keeps `p`, and ends with `q`. -/
def Turn.Meets (p : α → Prop) (q : β → Prop) : Turn α β → Prop
  | .again a => p a
  | .done b => q b

section Carried

variable {turn : α → Walk (Turn α β)} {p : α → Prop} {q : β → Prop}
  [hr : ∀ a, Respects .any 0 (turn a)]

theorem Charted.loop_gives (h : ∀ a, p a → Charted o f (turn a))
    (hg : ∀ a, p a → Gives o f (turn a) (Turn.Meets p q)) {a : α} (ha : p a) :
    Charted o f (Walk.loop a turn) := by
  have turns : ∀ n a, p a → Charted o f (Walk.iterate turn n a) := by
    intro n
    -- Each turn needs what the one before gives.
    induction n with
    | zero => exact fun a _ => @charted_of_paced _ o f _ .broken
    | succ n ih =>
      intro a ha
      refine (h a ha).bind_gives (hg a ha) (fun r hmeets => ?_) (.rest hr n)
      cases r with
      | again a => exact ih a hmeets
      | done b => exact inferInstanceAs (Charted o f (pure b))
  unfold Walk.loop
  exact .seq fun n => turns _ a ha

theorem Gives.loop (hg : ∀ a, p a → Gives o f (turn a) (Turn.Meets p q)) {a : α} (ha : p a) :
    Gives o f (Walk.loop a turn) q := by
  have turns : ∀ n a, p a → Gives o f (Walk.iterate turn n a) q := by
    intro n
    induction n with
    | zero => exact fun a _ s b s' _ hrun _ => by cases hrun
    | succ n ih =>
      intro a ha
      refine Gives.bind (hg a ha) (fun r hmeets => ?_) inferInstance (.rest hr n)
      cases r with
      | again a => exact ih a hmeets
      | done b => exact Gives.pure hmeets
  unfold Walk.loop
  exact Gives.bind (.trivial _) (fun n _ => turns _ a ha) inferInstance fun n => .iterate hr _ a

end Carried

/-! ### Conditions and loops -/

section Nested

variable (inner : Walk Unit) [Respects .any 0 inner] [Charted o f inner]

omit [Respects .any 0 inner] in
theorem charted_elseBranch (hf : f ≠ globalScope) {otherwise : Nat}
    (hotherwise : o.table.IsTargetOf otherwise f) (hstop : o.table.IsTargetOf stop f) :
    Charted o f (elseBranch inner otherwise stop) := by
  have jumps := charted_jump hf hstop .jump
  have binds := charted_bindTarget hf hotherwise
  unfold elseBranch
  infer_instance

instance : Charted o f (ifStatement inner) := by
  unfold ifStatement
  refine .required fun hf => .seq fun index => .seq fun _ => ?_
  refine .target hf rfl index fun otherwise hotherwise => .target hf rfl index fun stop hstop => ?_
  have jumps := charted_jump hf hotherwise (.jumpIf .eq)
  have branch := charted_elseBranch inner hf hotherwise hstop
  have binds := charted_bindTarget hf hstop
  infer_instance

instance : Charted o f (whileStatement inner) := by
  unfold whileStatement
  refine .required fun hf => .seq fun index => .seq fun _ => ?_
  refine .target hf rfl index fun start hstart => .target hf rfl index fun stop hstop => ?_
  have again := charted_jump hf hstart .jump
  have leaves := charted_jump hf hstop (.jumpIf .eq)
  have starts := charted_bindTarget hf hstart
  have stops := charted_bindTarget hf hstop
  have turns : Charted o f (inLoop stop (some start) none (body inner)) :=
    charted_inLoop _ hf hstop (by rintro _ ⟨⟩; exact hstart) nofun
  infer_instance

theorem charted_countedLoop (hf : f ≠ globalScope) {counter limit resume : Nat}
    (hcounter : o.table.IsVar counter) (hlimit : o.table.IsVar limit)
    (hstart : o.table.IsTargetOf start f) (hresume : o.table.IsTargetOf resume f)
    (hstop : o.table.IsTargetOf stop f) :
    Charted o f (countedLoop inner counter limit start resume stop) := by
  unfold countedLoop
  refine .bind_gives inferInstance
    (.of_yields (yields_slot hcounter)) fun counterSlot hcounterSlot => ?_
  refine .bind_gives inferInstance (.of_yields (yields_slot hlimit)) fun limitSlot hlimitSlot => ?_
  have clears : Paced o.table (emit (.mov (.numeric .int)) [counterSlot, .int 0]) :=
    paced_emitOrdinary rfl (by simpa using ⟨hcounterSlot, True.intro⟩)
  have compares : Paced o.table (emit (.cmp (.numeric .int)) [counterSlot, limitSlot]) :=
    paced_emitOrdinary rfl (by simpa using ⟨hcounterSlot, hlimitSlot⟩)
  have counts : Paced o.table (emit (.arithmetic .inc .int) [counterSlot]) :=
    paced_emitOrdinary rfl (by simpa using hcounterSlot)
  have again := charted_jump hf hstart .jump
  have leaves := charted_jump hf hstop (.jumpIf .ge)
  have starts := charted_bindTarget hf hstart
  have resumes := charted_bindTarget hf hresume
  have stops := charted_bindTarget hf hstop
  have turns : Charted o f (inLoop stop (some resume) (some counter) (body inner)) :=
    charted_inLoop _ hf hstop (by rintro _ ⟨⟩; exact hresume) (by rintro _ ⟨⟩; exact hcounter)
  infer_instance

theorem charted_repeatStatement (hf : f ≠ globalScope) (index : Nat) :
    Charted o f (repeatStatement inner index) := by
  unfold repeatStatement
  refine .internalLocal hf (.inl rfl) index _ _ fun counter hcounter => ?_
  refine .internalLocal hf (.inr (.inl rfl)) index _ _ fun limit hlimit => ?_
  refine .target hf rfl index fun start hstart => .target hf rfl index fun resume hresume => ?_
  refine .target hf rfl index fun stop hstop => ?_
  have counts := paced_repeatCount hlimit.isVar
  have turns := charted_countedLoop inner hf hcounter.isVar hlimit.isVar hstart hresume hstop
  infer_instance

omit [Respects .any 0 inner] [Charted o f inner] in
theorem charted_loopTest (hf : f ≠ globalScope) (hstart : o.table.IsTargetOf start f) :
    Charted o f (loopTest start) := by
  have again := charted_jump hf hstart (.jumpIf .ne)
  unfold loopTest
  infer_instance

theorem charted_bottomLoop (hf : f ≠ globalScope) (index : Nat) :
    Charted o f (bottomLoop inner index) := by
  unfold bottomLoop
  refine .target hf rfl index fun start hstart => .target hf rfl index fun resume hresume => ?_
  refine .target hf rfl index fun stop hstop => ?_
  have starts := charted_bindTarget hf hstart
  have resumes := charted_bindTarget hf hresume
  have stops := charted_bindTarget hf hstop
  have tests := charted_loopTest hf hstart
  have turns : Charted o f (inLoop stop (some resume) none (body inner)) :=
    charted_inLoop _ hf hstop (by rintro _ ⟨⟩; exact hresume) nofun
  infer_instance

instance : Charted o f (doStatement inner) := by
  unfold doStatement
  refine .required fun hf => .seq fun index => .seq fun _ => ?_
  have counted : Charted o f (repeatStatement inner index) := charted_repeatStatement inner hf index
  have bottom : Charted o f (bottomLoop inner index) := charted_bottomLoop inner hf index
  infer_instance

/-! ### Switches -/

/-- Between two clauses all that is known of are targets of the function. -/
structure Clauses.Sound (T : Table) (f : Nat) (c : Clauses) : Prop where
  test : ∀ id, c.test = some id → T.IsTargetOf id f
  default : ∀ id, c.default = some id → T.IsTargetOf id f

omit [Respects .any 0 inner] [Charted o f inner] in
theorem charted_caseTest (hf : f ≠ globalScope) {value nextTest : Nat}
    (hvalue : o.table.IsVar value)
    (hnext : o.table.IsTargetOf nextTest f) (type : ValueType) :
    Charted o f (caseTest value type nextTest) := by
  unfold caseTest
  refine .bind_gives inferInstance (.of_yields (yields_caseLabel type)) fun label hlabel => ?_
  refine .seq fun _ => ?_
  refine .bind_gives inferInstance (.of_yields (yields_opcodeFor type .cmp)) fun cmp hcmp => ?_
  refine .bind_gives inferInstance (.of_yields (yields_slot hvalue)) fun slot hslot => ?_
  have compares : Paced o.table (emit cmp [slot, label]) :=
    paced_emitOrdinary hcmp (by simpa using ⟨hslot, hlabel⟩)
  have jumps := charted_jump hf hnext (.jumpIf .ne)
  infer_instance

omit [Respects .any 0 inner] [Charted o f inner] in
theorem charted_pendingTest (hf : f ≠ globalScope) {test : Option Nat} {next : Nat}
    (htest : ∀ id, test = some id → o.table.IsTargetOf id f)
    (hnext : o.table.IsTargetOf next f) : Charted o f (pendingTest test next) := by
  unfold pendingTest
  cases test with
  | none => exact inferInstanceAs (Charted o f (pure ()))
  | some test =>
    have jumps := charted_jump hf hnext .jump
    have binds := charted_bindTarget hf (htest test rfl)
    infer_instance

omit [Respects .any 0 inner] [Charted o f inner] in
theorem charted_clauseTest (hf : f ≠ globalScope) {value nextTest : Nat}
    (hvalue : o.table.IsVar value)
    (hnext : o.table.IsTargetOf nextTest f) (kind : Kind) (type : ValueType) (clauses : Clauses)
    (index : Nat) : Charted o f (clauseTest kind value type clauses index nextTest) := by
  have tests := charted_caseTest hf hvalue hnext type
  have jumps := charted_jump hf hnext .jump
  unfold clauseTest defaultTest
  infer_instance

theorem charted_switchClause (hf : f ≠ globalScope) {value : Nat} (hvalue : o.table.IsVar value)
    (type : ValueType) {clauses : Clauses} (hclauses : clauses.Sound o.table f) :
    Charted o f (switchClause inner value type clauses) := by
  unfold switchClause
  refine .seq fun index => .seq fun kind => ?_
  refine .target hf rfl index fun start hstart => .target hf rfl index fun nextTest hnext => ?_
  have pends := charted_pendingTest hf hclauses.test hstart
  have tests := charted_clauseTest hf hvalue hnext kind type clauses index
  have binds := charted_bindTarget hf hstart
  infer_instance

omit [Charted o f inner] in
theorem gives_switchClause (value : Nat) (type : ValueType) {clauses : Clauses}
    (hclauses : clauses.Sound o.table f) :
    Gives o f (switchClause inner value type clauses) (Clauses.Sound o.table f) := by
  unfold switchClause
  refine .bind (.trivial _) fun index _ => .bind (.trivial _) fun kind _ => ?_
  refine .bind (gives_target rfl index) fun start hstart => ?_
  refine .bind (gives_target rfl index) fun nextTest hnext => ?_
  refine .bind (.trivial _) fun _ _ => .bind (.trivial _) fun _ _ =>
    .bind (.trivial _) fun _ _ => ?_
  refine .bind (.trivial _) fun _ _ => .pure ⟨?_, ?_⟩
  · rintro _ ⟨⟩
    exact hnext
  · dsimp only
    split
    · exact hclauses.default
    · rintro _ ⟨⟩
      exact hstart

omit [Charted o f inner] in
theorem gives_clauseTurn (value : Nat) (type : ValueType) (clauses : Clauses)
    (hclauses : clauses.Sound o.table f) :
    Gives o f (do
      if ← check .closeBrace then return .done clauses
      else return .again (← switchClause inner value type clauses))
      (Turn.Meets (Clauses.Sound o.table f) (Clauses.Sound o.table f)) := by
  refine .bind (.trivial _) fun isOver _ => ?_
  split
  · exact .pure hclauses
  · exact .bind (gives_switchClause inner value type hclauses) fun next hnext => .pure hnext

omit [Respects .any 0 inner] [Charted o f inner] in
theorem Clauses.sound_empty : Clauses.Sound T f {} := ⟨nofun, nofun⟩

theorem charted_clausesUntilBrace (hf : f ≠ globalScope) {value : Nat}
    (hvalue : o.table.IsVar value)
    (type : ValueType) : Charted o f (clausesUntilBrace inner value type) := by
  unfold clausesUntilBrace
  refine .loop_gives (fun clauses hclauses => ?_)
    (gives_clauseTurn inner value type) Clauses.sound_empty
  have clause := charted_switchClause inner hf hvalue type hclauses
  infer_instance

omit [Charted o f inner] in
theorem gives_clausesUntilBrace (value : Nat) (type : ValueType) :
    Gives o f (clausesUntilBrace inner value type) (Clauses.Sound o.table f) := by
  unfold clausesUntilBrace
  exact .loop (gives_clauseTurn inner value type) Clauses.sound_empty

theorem charted_switchClauses (hf : f ≠ globalScope) {value : Nat} (hvalue : o.table.IsVar value)
    (hstop : o.table.IsTargetOf stop f) (type : ValueType) :
    Charted o f (switchClauses inner value type stop) := by
  unfold switchClauses
  refine .bind_gives (charted_clausesUntilBrace inner hf hvalue type)
    (gives_clausesUntilBrace inner value type) fun clauses hclauses => ?_
  have pends := charted_pendingTest hf hclauses.test hstop
  have binds := charted_bindTarget hf hstop
  have defaults : Charted o f (defaultJump clauses.default) := by
    unfold defaultJump
    cases hdefault : clauses.default with
    | none => exact inferInstanceAs (Charted o f (pure ()))
    | some start => exact charted_jump hf (hclauses.default start hdefault) .jump
  infer_instance

omit [Respects .any 0 inner] [Charted o f inner] in
theorem charted_storeSwitched {value : Nat} (hvalue : o.table.IsLocal value) (type : ValueType) :
    Charted o f (storeSwitched value type) where
  respects := inferInstance
  run s hinside := by
    have pops : Paced o.table (do
        let pop ← opcodeFor type .pop
        emit pop [← slot value]) := by
      refine .bind_yields inferInstance (yields_opcodeFor type .pop) fun pop hpop => ?_
      refine .bind_yields inferInstance (yields_slot hvalue.isVar) fun slot hslot => ?_
      exact paced_emitOrdinary hpop (by simpa using hslot)
    unfold storeSwitched modifyVariable
    -- Only the second walk gives the switched value its type.
    rcases s.pass_cases with hpass | hpass
    · rw [emitting_bind_declare hpass]
      exact .of_course (.refl s)
    · rw [emitting_bind_emit hpass, if_pos rfl]
      rcases modifyKind_cases value (·.mapVariable ({ · with type })) s with hrun | hrun
      · rw [bind_of_ok hrun]
        exact .after (.move (.retype value type hpass hvalue)) (.of_paced hinside.counts)
      · rw [bind_of_error hrun]
        exact .of_course (.refl s)

instance : Charted o f (switchStatement inner) := by
  unfold switchStatement
  refine .required fun hf => .seq fun index => .seq fun _ => ?_
  refine .target hf rfl index fun stop hstop => .seq fun type => ?_
  refine .internalLocal hf (.inr (.inr rfl)) index _ _ fun value hvalue => ?_
  have stores : Charted o f (storeSwitched value type) := charted_storeSwitched hvalue type
  have clauses := charted_switchClauses inner hf hvalue.isVar hstop type
  have turns : Charted o f (inLoop stop none none (switchClauses inner value type stop)) :=
    charted_inLoop _ hf hstop nofun nofun
  infer_instance

end Nested

/-! ### Jumps -/

instance : Charted o f breakStatement := by
  unfold breakStatement
  refine .required fun hf => .seq fun index => .seq fun _ =>
    .seq fun depth => .seq fun _ => .view fun s hinside => ?_
  split
  · infer_instance
  · next frame hframe =>
    have jumps := charted_jump hf (hinside.breaks frame (List.mem_of_getElem? hframe)) .jump
    infer_instance

instance : Charted o f continueStatement := by
  unfold continueStatement
  refine .required fun hf => .seq fun index => .seq fun _ =>
    .seq fun depth => .seq fun _ => .view fun s hinside => ?_
  split
  · infer_instance
  · next next regions hnext =>
    obtain ⟨frame, hframe, htarget⟩ := List.mem_filterMap.1 (List.mem_of_getElem? hnext)
    obtain ⟨id, hid, heq⟩ := Option.map_eq_some_iff.1 htarget
    have haims := hinside.continues frame hframe id hid
    cases heq
    have jumps := charted_jump hf haims .jump
    infer_instance

theorem tracks_defineLabel (hf : f ≠ globalScope) (index : Nat) (name : String) {s : State}
    (hinside : Inside o.table f s) : Tracks o s (defineLabel index s.function name s) := by
  have hs : s.function ≠ globalScope := hinside.function ▸ hf
  have houter : s.function ≠ memberScope := hinside.function ▸ hinside.outer
  let create : Walk Nat := addSymbol s.function name (.target none)
  have keeps : Respects .any 0 (keyed index .label create) := inferInstance
  unfold defineLabel
  refine .bind inferInstance (tracks_keyed (creates_target rfl index name hs houter) nofun)
    fun id s₁ hrun => .of_heads fun hheads => ?_
  have hkeeps := keeps.ok (Nat.zero_le _) hrun
  rw [hinside.function] at hrun
  have haims := gives_newTarget rfl index name s id s₁ hinside hrun hheads
  exact (charted_bindTarget hf haims).run s₁ (hinside.keeps hkeeps)

theorem charted_placeLabel (hf : f ≠ globalScope) (index : Nat) (name : String) :
    Charted o f (placeLabel index name) where
  respects := inferInstance
  run s hinside := by
    unfold placeLabel
    rw [view_bind]
    rcases s.pass_cases with hpass | hpass
    · rw [emitting_bind_declare hpass, if_neg Bool.false_ne_true]
      have finds : Charted o f (findChild s.function name (·.kind.isTarget)) := inferInstance
      -- A label is defined by the first walk, unless the function has one of its name.
      refine finds.tracks_bind inferInstance hinside fun found s₁ hfind hinside₁ => ?_
      obtain ⟨rfl, rfl⟩ := findChild_eq_ok hfind
      split
      · exact Charted.run s₁ hinside
      · exact tracks_defineLabel hf index name hinside
    · unfold isRejected
      rw [emitting_bind_emit hpass, if_pos rfl, view_bind]
      split
      · exact tracks_defineLabel hf index name hinside
      · exact .of_course (.refl s)

instance : Charted o f labelStatement := by
  unfold labelStatement
  refine .required fun hf => .seq fun index => .seq fun name =>
    .seq fun _ => ?_
  exact charted_placeLabel hf index name.text

/-- A search among the targets of the function. -/
theorem Charted.findTarget {name : String} {k : Option Nat → Walk β}
    (hk : ∀ found, (∀ id, found = some id → o.table.IsTargetOf id f) → Charted o f (k found))
    (hr : ∀ a, Respects .any 0 (k a) := by
      intro a
      repeat' first
        | infer_instance
        | split
        | refine Respects.seq fun _ => ?_) :
    Charted o f (findChild f name (·.kind.isTarget) >>= k) where
  respects := .bind inferInstance hr
  run s hinside := by
    have finds : Charted o f (findChild f name (·.kind.isTarget)) := inferInstance
    refine finds.tracks_bind hr hinside fun found s₁ hrun hinside₁ => .of_heads fun hheads => ?_
    -- What is found is a target now, and stays one up to the end of the walk.
    have haims : ∀ id, found = some id → o.table.IsTargetOf id f := by
      intro id hid
      obtain ⟨rfl, rfl⟩ := findChild_eq_ok hrun
      obtain ⟨hmem, x, hx, -, htarget⟩ := Table.find?_eq_some hid
      refine hheads.table.isTargetOf ⟨hinside₁.wellFormed.owned f id hmem, ?_⟩
      cases hkind : x.kind with
      | target bound => exact ⟨bound, Table.kind?_eq_some.2 ⟨x, hx, hkind⟩⟩
      | _ =>
        rw [hkind] at htarget
        cases htarget
    exact (hk found haims).run s₁ hinside₁

/-! ### All statements -/

section All

instance : Charted o f gotoStatement := by
  unfold gotoStatement
  refine .required fun hf => .seq fun _ => .seq fun index =>
    .seq fun label => .view fun s hinside => ?_
  rw [hinside.function]
  refine .findTarget fun found hfound => ?_
  split
  · infer_instance
  · next id =>
    have jumps := charted_jump hf (hfound id rfl) .jump
    infer_instance

variable (inner : Walk Unit) [∀ f, Charted o f inner] [Lasting inner] [Respects .loud 0 inner]
  [Respects .any 0 inner]

omit [Respects .any 0 inner] in
theorem charted_forClauses (hf : f ≠ globalScope) {resume : Nat}
    (hstart : o.table.IsTargetOf start f) (hresume : o.table.IsTargetOf resume f)
    (hstop : o.table.IsTargetOf stop f) : Charted o f (forClauses inner start resume stop) := by
  have again := charted_jump hf hstart .jump
  have leaves := charted_jump hf hstop (.jumpIf .eq)
  have starts := charted_bindTarget hf hstart
  have resumes := charted_bindTarget hf hresume
  have stops := charted_bindTarget hf hstop
  have turns : Charted o f (inLoop stop (some resume) none (body inner)) :=
    charted_inLoop _ hf hstop (by rintro _ ⟨⟩; exact hresume) nofun
  have tests : Charted o f (forCondition stop) := by
    unfold forCondition
    infer_instance
  unfold forClauses
  refine .seq fun _ => .seq fun _ => .seq fun _ =>
    .seq fun _ => .seq fun increment => .seq fun _ => ?_
  infer_instance

instance : Charted o f (forStatement inner) := by
  unfold forStatement
  refine .required fun hf => .seq fun index => .seq fun _ => ?_
  refine .target hf rfl index fun start hstart => .target hf rfl index fun resume hresume => ?_
  refine .target hf rfl index fun stop hstop => ?_
  have clauses := charted_forClauses inner hf hstart hresume hstop
  infer_instance

theorem charted_statementWith : Charted o f (statementWith inner) := by
  unfold statementWith
  refine .seq fun next => ?_
  split <;> infer_instance

end All

theorem charted_statementUpTo (n : Nat) : ∀ f, Charted o f (statementUpTo n) := by
  induction n with
  | zero => exact fun f => @charted_of_paced _ o f _ .broken
  | succ n ih =>
    intro f
    have any : Respects .any 0 (statementUpTo n) := inferInstance
    have loud : Respects .loud 0 (guarded (statementUpTo n)) := inferInstance
    have weak : Respects .any 0 (guarded (statementUpTo n)) := loud.weaken
    exact charted_statementWith (guarded (statementUpTo n))

instance : Charted o f statement := by
  unfold statement
  have nested : ∀ n, Charted o f (statementUpTo n) := fun n => charted_statementUpTo n f
  infer_instance

/-- A walk over a script takes a course. -/
theorem course_walkOver {pass : Pass} {s s' : State} (hrun : walkOver pass s = .ok () s')
    (hheads : Heads o s') (hsize : memberScope < s.table.size) (hfaithful : s.Faithful)
    (hwellFormed : s.table.WellFormed) : Course o.table (s.begin pass) s' := by
  have charted : Charted o globalScope statements := inferInstance
  have houter : globalScope ≠ memberScope := by decide
  have hinside : Inside o.table globalScope (s.begin pass) :=
    .of_no_loops rfl houter houter hsize hfaithful hwellFormed rfl
  rw [walkOver_run] at hrun
  have hcourse := charted.run (s.begin pass) hinside
  rw [hrun] at hcourse
  exact hcourse (continues_ok () s') hheads

end StateScript.Walk
