import StateScript.Proofs.Walk.DeclarationLockstep

/-! # Statements in step

  Both walks get through a statement together, one rule of the grammar at a time. What
  holds other statements takes for granted that these are in step.
-/

namespace StateScript.Walk

variable {clause resume resume' start start' stop stop' : Nat} {s t : State}

set_option synthInstance.maxSize 1000000000

variable {α β : Type} {k : Mode} {b : Nat} {o o' : Nat → Prop}

/-! ### Blocks and loops -/

theorem inStep_loopTest (start start' : Nat) :
    InStep k b o (loopTest start) (loopTest start') o := by
  unfold loopTest
  refine .bind_blind fun isWhile => .ite (fun _ => ?_) fun _ => .pure trivial fun _ h => h
  exact .bind_plain agrees_condition fun _ _ _ => .bind_still fun _ _ => .of_agrees .same

/-! ### Jumps -/

theorem inStep_returnStatement : InStep k b o returnStatement returnStatement o := by
  unfold returnStatement
  refine .requireFunction _ (.header fun index => ?_)
  refine .bind_agrees (agrees_returnValue index) fun _ _ _ => .bind_blind fun _ => ?_
  exact .bind_still fun _ _ => .of_agrees .still

instance (isParenthesised : Bool) : Blind (depthNumber isParenthesised) := by
  unfold depthNumber
  refine .seq fun i => .seq fun t => ?_
  split
  · split <;> infer_instance
  · infer_instance

/-- Loops of the same shape at the same depth. -/
theorem Alike.loop (h : Alike k s t) (depth : Nat) :
    (t.loops[depth]?).map LoopFrame.shape = (s.loops[depth]?).map LoopFrame.shape := by
  rw [← List.getElem?_map, ← List.getElem?_map, h.shapes]

theorem inStep_breakStatement : InStep k b o breakStatement breakStatement o := by
  unfold breakStatement
  refine .requireFunction _ (.header fun index => .bind_blind fun depth =>
    .bind_still fun _ _ => ?_)
  refine .bind_view (R := fun c d => d.map LoopFrame.shape = c.map LoopFrame.shape)
    (fun s t habreast => habreast.alike.loop (depth - 1)) fun frame frame' h => ?_
  cases frame' with
  | none => exact .never
  | some frame' =>
    cases frame with
    | none => cases h
    | some frame => exact .bind_blind fun _ => .bind_still fun _ _ => .of_agrees .still

/-- As many loops that `continue` is about. -/
theorem Alike.continues (h : Alike k s t) :
    (s.loops.filterMap fun f => f.continueTarget.map fun t => (t, f.regions)).length =
      (t.loops.filterMap fun f => f.continueTarget.map fun t => (t, f.regions)).length := by
  -- The targets are counted by the shapes of the loops.
  have count : ∀ loops : List LoopFrame,
      (loops.filterMap fun f => f.continueTarget.map fun t => (t, f.regions)).length =
        ((loops.map LoopFrame.shape).filter (·.1)).length := by
    intro loops
    induction loops with
    | nil => rfl
    | cons f loops ih =>
      rw [List.filterMap_cons, List.map_cons, List.filter_cons]
      cases hf : f.continueTarget with
      | none => simpa [LoopFrame.shape, hf] using ih
      | some target => simpa [LoopFrame.shape, hf] using ih
  rw [count, count, h.shapes]

theorem inStep_continueStatement : InStep k b o continueStatement continueStatement o := by
  unfold continueStatement
  refine .requireFunction _ (.header fun index => .bind_blind fun depth =>
    .bind_still fun _ _ => ?_)
  refine .bind_view (R := fun c d => c.length = d.length)
    (fun s t habreast => habreast.alike.continues) fun targets targets' h => ?_
  cases hnext' : targets'[depth - 1]? with
  | none => exact .never
  | some next' =>
    have hlt := (List.getElem?_eq_some_iff.1 hnext').1
    rw [List.getElem?_eq_getElem (h.symm ▸ hlt)]
    exact .bind_blind fun _ => .bind_still fun _ _ => .of_agrees .still

theorem inStep_gotoStatement : InStep k b o gotoStatement gotoStatement o := by
  unfold gotoStatement
  refine .requireFunction _ (.bind_blind fun _ => .bind_blind fun index => ?_)
  refine .bind_blind fun label => .bind_still fun _ _ => .bind_still fun found found' => ?_
  cases found' with
  | none => exact .emitting_right (.ite_right (fun _ => .never) fun h => absurd rfl h)
  | some id' =>
    refine .right fun regions' => .right fun current' => .emitting_right ?_
    refine .ite_right (fun _ => .never) fun _ => ?_
    cases found with
    | none =>
      -- The first walk does not know the label yet.
      have ends : InStep k.within b o (do expectMark .semicolon; pure ())
          (do expectMark .semicolon; leaveRegions regions'; jump .jump id') o :=
        .bind_blind fun _ => .right fun _ => .of_agrees .still
      rw [bind_pure_unit] at ends
      exact .emitting_left ends
    | some id =>
      refine .left fun regions => .left fun current => .emitting_left ?_
      exact .bind_blind fun _ => .bind_still fun _ _ => .of_agrees .still

theorem inStep_gotoStateStatement : InStep k b o gotoStateStatement gotoStateStatement o := by
  unfold gotoStateStatement
  refine .requireFunction _ (.bind_blind fun _ => .bind_blind fun index =>
    .bind_blind fun path => ?_)
  refine .bind_still fun found found' => ?_
  have ends : InStep k.within b o (expectMark .semicolon) (expectMark .semicolon) o :=
    .of_agrees .same
  -- Only the second walk insists on the state.
  cases found with
  | none =>
    refine .emitting_left ?_
    cases found' with
    | none => exact .emitting_right (.ite_right (fun _ => .never) fun h => absurd rfl h)
    | some id' => exact .right fun _ => ends
  | some id =>
    refine .left fun _ => ?_
    cases found' with
    | none => exact .emitting_right (.ite_right (fun _ => .never) fun h => absurd rfl h)
    | some id' => exact .right fun _ => ends

theorem inStep_breakpointStatement : InStep k b o breakpointStatement breakpointStatement o := by
  unfold breakpointStatement
  refine .requireFunction _
    (.bind_view (R := fun _ _ => True) (fun _ _ _ => trivial) fun c d _ => ?_)
  exact .bind_blind fun _ => .bind_blind fun _ => .of_agrees .still

theorem inStep_plainStatement : InStep k b o plainStatement plainStatement o := by
  unfold plainStatement
  exact .requireFunction _ (.bind_agrees agrees_simpleStatement fun _ _ _ => .of_agrees .same)

section Inner

variable (inner : Walk Unit) [∀ b, Respects .any b inner]
  (hinner : ∀ k b o, InStep k b o inner inner o)
include hinner

theorem inStep_block : InStep k b o (block inner) (block inner) o := by
  unfold block
  exact .requireFunction _ (.bind_blind fun _ => (inStep_blockContents inner hinner).inBlock)

omit [∀ b, Respects .any b inner] in
theorem inStep_body : InStep k b o (body inner) (body inner) o := by
  unfold body
  exact .bind_blind fun _ => hinner k b o

theorem inStep_elseBranch (otherwise otherwise' stop stop' : Nat) :
    InStep k b o (elseBranch inner otherwise stop) (elseBranch inner otherwise' stop')
      fun j => o j ∧ j ≠ otherwise' := by
  unfold elseBranch
  refine .bind_blind fun isElse => .ite (fun _ => .bind_still fun _ _ => ?_)
    fun _ => .bindTarget otherwise otherwise'
  exact .bind (.bindTarget otherwise otherwise') fun _ _ _ => inStep_body inner hinner

theorem inStep_ifStatement : InStep k b o (ifStatement inner) (ifStatement inner) o := by
  unfold ifStatement
  refine .requireFunction _ (.header fun index => ?_)
  refine .target (Nat.lt_succ_self index) fun otherwise otherwise' => ?_
  refine .target (Nat.lt_succ_self index) fun stop stop' => ?_
  refine .bind_plain agrees_condition fun _ _ _ => .bind_still fun _ _ => ?_
  refine .bind (inStep_body inner hinner) fun _ _ _ => ?_
  refine .bind (inStep_elseBranch inner hinner otherwise otherwise' stop stop') fun _ _ _ => ?_
  exact (Marches.bindTarget stop stop').mono (fun _ _ h => h) fun _ _ h => by grind

theorem inStep_whileStatement : InStep k b o (whileStatement inner) (whileStatement inner) o := by
  unfold whileStatement
  refine .requireFunction _ (.header fun index => ?_)
  refine .target (Nat.lt_succ_self index) fun start start' => ?_
  refine .target (Nat.lt_succ_self index) fun stop stop' => ?_
  refine .bind (.bindTarget start start') fun _ _ _ => ?_
  refine .bind_plain agrees_condition fun _ _ _ => .bind_still fun _ _ => ?_
  refine .bind ((inStep_body inner hinner).inLoop rfl rfl) fun _ _ _ => .bind_still fun _ _ => ?_
  exact (Marches.bindTarget stop stop').mono (fun _ _ h => h) fun _ _ h => by grind

theorem inStep_countedLoop {counter counter' limit limit' : Nat} :
    InStep k b o (countedLoop inner counter limit start resume stop)
      (countedLoop inner counter' limit' start' resume' stop')
      fun j => ((o j ∧ j ≠ start') ∧ j ≠ resume') ∧ j ≠ stop' := by
  unfold countedLoop
  refine .bind_still fun _ _ => .bind_still fun _ _ => .bind_still fun _ _ => ?_
  refine .bind (.bindTarget start start') fun _ _ _ => ?_
  refine .bind_still fun _ _ => .bind_still fun _ _ => ?_
  refine .bind ((inStep_body inner hinner).inLoop rfl rfl) fun _ _ _ => ?_
  refine .bind (.bindTarget resume resume') fun _ _ _ => ?_
  exact .bind_still fun _ _ => .bind_still fun _ _ => .bindTarget stop stop'

theorem inStep_repeatStatement {index : Nat} (hindex : index < b) :
    InStep k b o (repeatStatement inner index) (repeatStatement inner index) o := by
  unfold repeatStatement
  refine .internalLocal hindex fun counter counter' => ?_
  refine .internalLocal hindex fun limit limit' => ?_
  refine .target hindex fun start start' => .target hindex fun resume resume' => ?_
  refine .target hindex fun stop stop' => ?_
  refine .bind_plain (agrees_repeatCount limit limit') fun _ _ _ => ?_
  exact (inStep_countedLoop inner hinner).mono (fun _ _ h => h) fun _ _ h => by grind

theorem inStep_bottomLoop {index : Nat} (hindex : index < b) :
    InStep k b o (bottomLoop inner index) (bottomLoop inner index) o := by
  unfold bottomLoop
  refine .target hindex fun start start' => .target hindex fun resume resume' => ?_
  refine .target hindex fun stop stop' => ?_
  refine .bind (.bindTarget start start') fun _ _ _ => ?_
  refine .bind ((inStep_body inner hinner).inLoop rfl rfl) fun _ _ _ => ?_
  refine .bind (.bindTarget resume resume') fun _ _ _ => ?_
  refine .bind (inStep_loopTest start start') fun _ _ _ => ?_
  exact (Marches.bindTarget stop stop').mono (fun _ _ h => h) fun _ _ h => by grind

theorem inStep_doStatement : InStep k b o (doStatement inner) (doStatement inner) o := by
  unfold doStatement
  refine .requireFunction _ (.header fun index => .bind_blind fun isCounted => ?_)
  exact .ite (fun _ => inStep_repeatStatement inner hinner (Nat.lt_succ_self index))
    fun _ => inStep_bottomLoop inner hinner (Nat.lt_succ_self index)

theorem inStep_exclusiveStatement (e : Exclusion) :
    InStep k b o (exclusiveStatement inner e) (exclusiveStatement inner e) o := by
  unfold exclusiveStatement requireClosed
  refine .requireFunction _ (.header fun index => ?_)
  rw [bind_assoc]
  have rest : InStep k.within (index + 1) o
      (do emit e.enter []; inRegion e index (body inner); emit e.exit [])
      (do emit e.enter []; inRegion e index (body inner); emit e.exit []) o := by
    refine .bind_still fun _ _ => ?_
    exact .bind ((inStep_body inner hinner).inRegion e index) fun _ _ _ => .of_agrees .still
  refine .bind_view (R := Eq) (fun s t habreast => by rw [habreast.alike.regions]) ?_
  rintro isOpen _ rfl
  cases isOpen.isSome with
  -- Inside the same kind of region both walks are abandoned.
  | true =>
    exact .bind_plain (x := errorAt index _ _) (y := errorAt index _ _) (R := fun _ _ => True)
      .never fun _ _ _ => rest
  | false => exact rest

end Inner

/-! ### Labels -/

theorem inStep_defineLabel {index : Nat} (hindex : index < b) (function function' : Nat)
    (name : String) : InStep k b o (defineLabel index function name)
      (defineLabel index function' name) o := by
  unfold defineLabel
  exact .keyed hindex (.target function name) fun id id' =>
    (Marches.bindTarget id id').mono (fun _ _ h => h) fun _ _ h => by grind

theorem inStep_placeLabel {index : Nat} (hindex : index < b) (name : String) :
    InStep k b o (placeLabel index name) (placeLabel index name) o := by
  unfold placeLabel
  refine .bind_view (R := fun _ _ => True) (fun _ _ _ => trivial) fun function function' _ => ?_
  refine .emitting ?_
  rw [if_neg Bool.false_ne_true, if_pos rfl]
  refine .checked fun found => .unrejected ?_
  split
  · refine .refused fun s hpass => ?_
    unfold refuse
    rw [emitting_bind_declare hpass]
    exact hasErrors_push_error s.log rfl
  · exact inStep_defineLabel hindex function function' name

theorem inStep_labelStatement : InStep k b o labelStatement labelStatement o := by
  unfold labelStatement
  refine .requireFunction _ (.position (fun h => ?_) fun index name => .bind_blind fun _ => ?_)
  · rw [(advance_eq_ok h).2]
    exact Nat.lt_succ_self _
  · exact inStep_placeLabel (Nat.lt_succ_self index) name.text

/-! ### `for` loops -/

theorem agrees_simpleUnless (stop : Kind) :
    Agrees true (simpleUnless stop) (simpleUnless stop) := by
  unfold simpleUnless
  refine .bind_blind fun isOver => ?_
  cases isOver with
  | true => exact .pure trivial
  | false => exact agrees_simpleStatement

/-- The last clause of a `for` loop, from behind its body. -/
def lastClause (clause next : Nat) : Walk Unit := do
  moveTo clause
  simpleUnless .closeParen
  expectMark .closeParen
  moveTo next

theorem agrees_lastClause (clause next : Nat) :
    Agrees false (lastClause clause next) (lastClause clause next) := by
  unfold lastClause
  refine .bind_blind fun _ => .bind_loose (agrees_simpleUnless .closeParen) fun _ _ _ => ?_
  exact .bind_blind fun _ => .same

theorem lastClause_pos {next : Nat} {s' : State} (h : lastClause clause next s = .ok () s') :
    s'.pos = next := by
  unfold lastClause at h
  obtain ⟨_, s₁, -, h⟩ := bind_eq_ok.1 h
  obtain ⟨_, s₂, -, h⟩ := bind_eq_ok.1 h
  obtain ⟨_, s₃, -, h⟩ := bind_eq_ok.1 h
  cases h
  rfl

/-- Both walks come back from the last clause. -/
theorem Abreast.lastClause {t' : State} (h : Abreast k o s t)
    (hrun : lastClause clause t.pos t = .ok () t') : Doomed (lastClause clause s.pos s) ∨
      ∃ s', Walk.lastClause clause s.pos s = .ok () s' ∧ s'.pos = s.pos ∧
        Keeps .plain 0 none s s' ∧ Abreast k o s' t' := by
  have plain : ∀ next, Respects .plain 0 (Walk.lastClause clause next) := by
    intro next
    unfold Walk.lastClause
    infer_instance
  have hpos := lastClause_pos hrun
  rw [h.pos] at hrun hpos
  rcases (agrees_lastClause clause s.pos).run h.toLevel hrun with
      hdoomed | ⟨hloose, -⟩ | ⟨_, s', hs', hpos', -⟩
  · exact .inl hdoomed
  · cases hloose
  · have hkeeps := (plain s.pos).ok (Nat.zero_le _) hs'
    have hs'pos := lastClause_pos hs'
    exact .inr ⟨s', hs', hs'pos, hkeeps,
      h.keeps hkeeps ((plain s.pos).ok (Nat.zero_le _) hrun) hpos'
      (Nat.le_of_eq hs'pos.symm)⟩

/-- What comes behind the body of a `for` loop. -/
def afterBody (clause start resume stop : Nat) : Walk Unit := do
  bind resume
  let next ← position
  lastClause clause next
  jump .jump start
  bind stop

/-- What comes behind the first clause of a `for` loop. -/
def forTail (inner : Walk Unit) (start resume stop : Nat) : Walk Unit := do
  (do forCondition stop; expectMark .semicolon)
  let clause ← position
  skipBalanced .openParen .closeParen
  inLoop stop (some resume) none (body inner)
  afterBody clause start resume stop

theorem forClauses_eq (inner : Walk Unit) (start resume stop : Nat) :
    forClauses inner start resume stop = (do
      forStart inner
      bind start
      forTail inner start resume stop) := by
  unfold forClauses forTail afterBody lastClause
  simp only [bind_assoc]

instance (inner : Walk Unit) [Respects .any b inner] :
    Respects .any b (forTail inner start resume stop) := by
  unfold forTail afterBody lastClause
  infer_instance

theorem jump_of_declare {opcode : Opcode} {id : Nat} (hpass : s.pass = .declare) :
    jump opcode id s = .ok () s :=
  emit_of_declare opcode [.target id] hpass

theorem Abreast.afterBody {t' : State} (h : Abreast k o s t)
    (hrun : afterBody clause start' resume' stop' t = .ok () t') :
    Doomed (afterBody clause start resume stop s) ∨
      ∃ s', Walk.afterBody clause start resume stop s = .ok () s' ∧ s'.pos = s.pos ∧
        Keeps .plain 0 none s s' ∧
        Abreast k (fun j => (o j ∧ j ≠ resume') ∧ j ≠ stop') s' t' := by
  unfold Walk.afterBody at hrun ⊢
  obtain ⟨_, t₀, ht₀, hrun⟩ := bind_eq_ok.1 hrun
  cases state_of_bind h.second ht₀
  rw [position_bind] at hrun
  rw [bind_of_ok (bind_of_declare h.first), position_bind]
  obtain ⟨_, t₁, ht₁, hrun⟩ := bind_eq_ok.1 hrun
  obtain ⟨_, t₂, ht₂, hrun⟩ := bind_eq_ok.1 hrun
  -- The first walk writes nothing, the second binds both targets.
  rcases (h.bound resume').lastClause ht₁ with hdoomed | ⟨s₁, hs₁, hpos₁, hkeeps, habreast₁⟩
  · exact .inl hdoomed.bind
  · have emits : Respects .plain 0 (jump .jump start') := inferInstance
    have stays : Still .emit (jump .jump start') := inferInstance
    have hpos₂ := (stays.stays habreast₁.second ht₂).1.trans habreast₁.pos
    have still : Keeps .plain 0 none s₁ s₁ := .refl (fun _ h => by cases h) (Nat.zero_le _)
    have habreast₂ := habreast₁.keeps still (emits.ok (Nat.zero_le _) ht₂) hpos₂ (Nat.le_refl _)
    cases state_of_bind habreast₂.second hrun
    refine .inr ⟨s₁, ?_, hpos₁, hkeeps, habreast₂.bound stop'⟩
    rw [bind_of_ok hs₁, bind_of_ok (jump_of_declare habreast₁.first)]
    exact bind_of_declare habreast₁.first

theorem agrees_forHead (stop stop' : Nat) : Agrees false
    (do forCondition stop; expectMark .semicolon)
    (do forCondition stop'; expectMark .semicolon) := by
  have condition : Agrees true (forCondition stop) (forCondition stop') := by
    unfold forCondition
    refine .bind_blind fun isOver => ?_
    cases isOver with
    | true => exact .pure trivial
    | false => exact .bind_loose agrees_conditionExpression fun _ _ _ => .still
  exact .bind_loose condition fun _ _ _ => .same

/-- A run is known as far as one that goes on from its end and declares nothing. -/
theorem Known.before {α β : Type} {s₁ s₂ : State} {c : β}
    (h : Known k (.ok c s₂ : EStateM.Result Stop State β) t) (hkeeps : Keeps .plain 0 none s₁ s₂)
    (hle : s₁.pos ≤ s₂.pos) (a : α) : Known k (.ok a s₁ : EStateM.Result Stop State α) t := by
  have hdeclared : s₂.declared = s₁.declared := (hkeeps.plain (Nat.le_refl _)).1
  refine ⟨not_doomed_ok a s₁, hasErrors_eq_false_mono hkeeps.log h.log, ?_, fun hk => ?_⟩
  · obtain ⟨later, hlater⟩ := h.recorded
    exact ⟨later, hlater.trans (congrArg (later ++ ·) hdeclared)⟩
  · obtain ⟨later, hlater, hbehind⟩ := (h.holds hk).later
    exact ⟨hkeeps.table.trans (h.holds hk).table, later,
      hlater.trans (congrArg (later ++ ·) hdeclared),
      fun d hd => Nat.le_trans hle (hbehind d hd)⟩

section For

variable (inner : Walk Unit) [∀ b, Respects .any b inner]
  (hinner : ∀ k b o, InStep k b o inner inner o)
include hinner

/-- The body of a `for` loop and its last clause. That the first walk gets through the
    clause is found out first, from runs that are not close. -/
theorem inStep_forTurns (hk : k.isInner = true) (clause : Nat) :
    InStep k b o
      (inLoop stop (some resume) none (body inner) >>= fun _ => afterBody clause start resume stop)
      (inLoop stop' (some resume') none (body inner) >>= fun _ =>
        afterBody clause start' resume' stop')
      fun j => (o j ∧ j ≠ resume') ∧ j ≠ stop' := by
  have plain : ∀ next, Respects .plain 0 (lastClause clause next) := by
    intro next
    unfold lastClause
    infer_instance
  have loud : ∀ next, Respects .loud 0 (lastClause clause next) := fun next => (plain next).weaken
  have after : ∀ start resume stop, Respects .loud 0 (afterBody clause start resume stop) := by
    intro start resume stop
    unfold afterBody
    infer_instance
  have weak : ∀ start resume stop, Respects .any 0 (afterBody clause start resume stop) :=
    fun start resume stop => (after start resume stop).weaken
  have candid : Candid (afterBody clause start' resume' stop') := by
    have any : ∀ next, Respects .any 0 (lastClause clause next) := fun next => (plain next).weaken
    unfold afterBody
    infer_instance
  have turns : ∀ k, InStep k b o (inLoop stop (some resume) none (body inner))
      (inLoop stop' (some resume') none (body inner)) o := fun k =>
    (inStep_body inner hinner).inLoop rfl rfl
  constructor
  intro s t hpos habreast hknown
  have hmeets := (turns .apart).run hpos (habreast.toApart hk) hknown.first_apart
  refine .bind hmeets.stop fun _ t₁ ht₁ => ?_
  have any : Respects .any 0 (inLoop stop' (some resume') none (body inner)) := inferInstance
  have hkeeps' := any.ok (Nat.zero_le _) ht₁
  have hrunning := hkeeps'.running habreast.running
  refine .of_quiet hrunning fun hlog₁ => ⟨fun hrun _ => ?_, .of_candid
    (hkeeps'.pass.trans habreast.second) (hkeeps'.faithful habreast.faithful) hrunning⟩
  obtain ⟨u, s₁, hs₁, -, habreast₁⟩ := (hmeets.ok ht₁ hlog₁).resolve_left nofun
  rw [bind_of_ok hs₁] at hknown ⊢
  rcases habreast₁.afterBody hrun with hdoomed | ⟨s₂, hs₂, hpos₂, hkeeps, -⟩
  · exact absurd hdoomed hknown.ends
  -- The run of the body is known now, and so the walks are close behind it.
  have hknown₁ : Known k (inLoop stop (some resume) none (body inner) s) t := by
    rw [hs₂] at hknown
    rw [hs₁]
    exact hknown.before hkeeps (Nat.le_of_eq hpos₂.symm) u
  obtain ⟨_, s₁', hs₁', -, habreast₁⟩ :=
    ((turns k).ok hpos habreast hknown₁ ht₁ hlog₁).resolve_left nofun
  cases hs₁.symm.trans hs₁'
  rcases habreast₁.afterBody hrun with hdoomed | ⟨s₂', hs₂', -, -, habreast₂⟩
  · exact absurd hdoomed hknown.ends
  · exact .inr ⟨(), s₂', hs₂', trivial, habreast₂⟩

/-- The clauses of a `for` loop behind the first, and its body. -/
theorem inStep_forTail (hk : k.isInner = true) :
    InStep k b o (forTail inner start resume stop) (forTail inner start' resume' stop')
      fun j => (o j ∧ j ≠ resume') ∧ j ≠ stop' := by
  unfold forTail
  refine .bind_plain (agrees_forHead stop stop') fun _ _ _ => ?_
  exact .bind_blind fun clause => .bind_blind fun _ => inStep_forTurns inner hinner hk clause

variable [∀ b, Respects .loud b inner]

theorem inStep_forStart : InStep k b o (forStart inner) (forStart inner) o := by
  unfold forStart
  refine .bind_blind fun next => .ite (fun _ => inStep_declaration inner hinner) fun _ => ?_
  exact .bind_agrees (agrees_simpleUnless .semicolon) fun _ _ _ => .of_agrees .same

theorem inStep_forClauses (hk : k.isInner = true) :
    InStep k b o (forClauses inner start resume stop) (forClauses inner start' resume' stop')
      fun j => ((o j ∧ j ≠ start') ∧ j ≠ resume') ∧ j ≠ stop' := by
  rw [forClauses_eq, forClauses_eq]
  refine .bind (inStep_forStart inner hinner) fun _ _ _ => ?_
  refine .bind (.bindTarget start start') fun _ _ _ => ?_
  exact inStep_forTail inner hinner hk

theorem inStep_forStatement : InStep k b o (forStatement inner) (forStatement inner) o := by
  unfold forStatement
  refine .requireFunction _ (.header fun index => ?_)
  refine .target (Nat.lt_succ_self index) fun start start' => ?_
  refine .target (Nat.lt_succ_self index) fun resume resume' => ?_
  refine .target (Nat.lt_succ_self index) fun stop stop' => .bind_blind fun _ => ?_
  have clauses : InStep k.within (index + 1)
      (fun j => ((o j ∨ j = start') ∨ j = resume') ∨ j = stop')
      (forClauses inner start resume stop) (forClauses inner start' resume' stop') o :=
    (inStep_forClauses inner hinner (by cases k <;> rfl)).mono (fun _ _ h => h)
      fun _ _ h => by grind
  exact clauses.inBlock

end For

end StateScript.Walk
