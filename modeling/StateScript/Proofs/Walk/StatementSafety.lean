import StateScript.Proofs.Walk.ExpressionSafety

/-! # Statements do not break off

  A statement takes a token if there is one, and so does what is nested in it, which starts
  further on. An abandoned statement takes one when the walk goes on after it.
-/

namespace StateScript.Walk

variable {editor engine : Bool} {m : Modifiers} {enumeration id start stop : Nat} {s : State}

set_option synthInstance.maxSize 1000000000

variable {α β : Type} {c b n : Nat} {ids : List Nat}

/-! ### Variables -/

instance : Safe c b 0 ids modifiers := by
  unfold modifiers
  refine .loop (fun m => .peek inferInstance fun kind => ?_) _
  dsimp only
  split <;> infer_instance

instance (name : String) : Safe c b 0 ids (isTaken name) := by
  have visible : ∀ {ids : List Nat}, Safe c b 0 ids
      (ensure fun s => s.knows (s.blocks.headD [])) := by
    refine .ensure fun s hs _ => State.knows_iff.2 fun id hid => ?_
    cases hblocks : s.blocks with
    | nil =>
      rw [hblocks] at hid
      cases hid
    | cons block outer =>
      rw [hblocks] at hid
      exact hs.visible block (hblocks ▸ List.mem_cons_self) id hid
  unfold isTaken
  infer_instance

instance (index : Nat) (name : String) : Takes c b 0 ids (alreadyDeclared index name : Walk α) :=
  inferInstanceAs (Takes c b 0 ids (reject _ _ _))

instance [Held ids id] : Safe c b 0 ids (globalInitializer id) where
  run s hs := by
    have hglobal : globalScope < s.table.size := Nat.lt_of_lt_of_le (by decide) hs.sane.roots
    have sane : State.Sane c { s with function := globalScope } :=
      { hs.sane with function := hglobal }
    have value : Safe c b 0 ids (initializer id) := inferInstance
    refine Fine.protect { s with function := globalScope }
      (value.run _ ⟨sane, hs.start, hs.ahead, hs.known⟩) rfl rfl (fun s' hs' hsize => ?_)
      fun _ _ _ => trivial
    exact ⟨{ hs' with function := Nat.lt_of_lt_of_le hs.sane.function hsize }, rfl, rfl⟩

instance (type : ValueType) (name : String) (isInner : Bool) (owner : Nat) [Held ids owner] :
    Provides c b ids (createVariable m type name isInner owner) fun id => [id] := by
  unfold createVariable
  dsimp only
  refine .seq fun storage => .provided inferInstance fun id => ?_
  exact .seq fun _ => .held

instance (type : ValueType) (name : String) (index : Nat) (isInner : Bool) :
    Provides c b ids (declareVariable m type name index isInner) fun id => [id] := by
  have owner : Provides c b ids (view fun s => if isInner then s.function else s.scope)
      fun id => [id] := by
    refine .view fun s hs _ id hid => ?_
    rw [List.mem_singleton.1 hid]
    split
    · exact hs.function
    · exact hs.scope
  unfold declareVariable
  exact .seq fun _ => .provided owner fun _ => inferInstance

instance (type : ValueType) : Safe c b 0 ids (moreVariables m type) := by
  unfold moreVariables
  refine .loop (fun _ => .eat ?_ ?_) _ <;> infer_instance

/-! ### Functions -/

instance (returnType : ValueType) (name : String) (index : Nat) (all : List Parameter) :
    Safe c b 0 ids (checkFunction m returnType name index all) := by
  unfold checkFunction
  refine .seq fun isInner => .seq fun isState => ?_
  split <;> infer_instance

instance (function : Nat) [Held ids function] (all : List Parameter) :
    Safe c b 0 ids (declareParameters function all) := by
  unfold declareParameters
  exact .forM fun _ => inferInstance

instance (returnType : ValueType) (name : String) (index : Nat) (all : List Parameter) :
    Provides c b ids (declareFunction m returnType name index all) fun id => [id] := by
  unfold declareFunction
  refine .seq fun _ => .provided inferInstance fun scope => ?_
  have create : Provides c b ([scope] ++ ids) (do
      let id ← addSymbol scope name (.function
        { parameterCount := all.length, parameterTypes := all.map (·.type), returnType,
          flags := m.flags, access := m.access.getD .everyone })
      attachMetadata id
      return id) fun id => [id] := by
    refine .provided (.addSymbol ?_) fun id => .seq fun _ => .held
    rintro _ ⟨⟩
    simp
  infer_instance

instance (function : Nat) [Held ids function] : Safe c b 0 ids (checkUnused function) := by
  unfold checkUnused
  have reports : ∀ unused : List (Nat × String), Safe c b 0 ids (unused.forM fun (index, name) =>
      reportAt index .unusedSymbol .warning s!"'{name}' is never read") :=
    fun unused => .forM fun _ => inferInstance
  infer_instance

instance [Held ids id] : Safe c b 0 ids (finishFunction id) where
  run s hs := by
    have respects : Respects .any 0 (finishFunction id) := inferInstance
    rcases s.pass_cases with hpass | hpass
    -- The first walk lays out the frame, the second only warns.
    · have hrun : finishFunction id s = .ok ()
          { s with table := layFrame s.table id s.localCount } := by
        unfold finishFunction finishFrame
        rw [emitting_bind_declare hpass, if_neg Bool.false_ne_true,
          bind_of_ok (ensureScopes_of_held hs.sane hs.known [id])]
        rfl
      have hkeeps := respects.ok (Nat.zero_le _) hrun
      rw [hrun]
      exact .ok (hs.sane.grow (hkeeps.wellFormed hs.sane.table) hkeeps.table.size_le s.files
        s.history)
        (Nat.le_refl _) hkeeps.table.size_le trivial
    · have warns : Safe c b 0 ids (checkUnused id) := inferInstance
      unfold finishFunction
      rw [emitting_bind_emit hpass]
      exact warns.run s hs

/-! ### What is entered and left -/

section Enclosing

variable (x : Walk Unit) [hx : Safe c b 0 ids x]

instance [Held ids id] : Safe c b 0 ids (inScope id x) where
  run s hs := by
    have hid := hs.held id
    have sane : State.Sane c { s with scope := id } := { hs.sane with scope := hid }
    refine Fine.protect { s with scope := id }
      (hx.run _ ⟨sane, hs.start, hs.ahead, hs.known⟩) rfl rfl (fun s' hs' hsize => ?_)
      fun _ _ _ => trivial
    exact ⟨{ hs' with scope := Nat.lt_of_lt_of_le hs.sane.scope hsize }, rfl, rfl⟩

instance : Safe c b 0 ids (inBlock x) where
  run s hs := by
    have sane : State.Sane c { s with blocks := [] :: s.blocks } := by
      refine { hs.sane with visible := fun block hblock id hid => ?_ }
      rcases List.mem_cons.1 hblock with rfl | hblock
      · cases hid
      · exact hs.sane.visible block hblock id hid
    refine Fine.protect { s with blocks := [] :: s.blocks }
      (hx.run _ ⟨sane, hs.start, hs.ahead, hs.known⟩) rfl rfl (fun s' hs' _ => ?_)
      fun _ _ _ => trivial
    exact ⟨{ hs' with
        visible := fun block hblock => hs'.visible block (List.mem_of_mem_tail hblock) },
      rfl, rfl⟩

instance [Held ids id] : Safe c b 0 ids (inFunctionOf id x) where
  run s hs := by
    have hid := hs.held id
    have sane : State.Sane c { s with function := id, localCount := 0 } :=
      { hs.sane with function := hid }
    have contents : Safe c b 0 ids (inScope id (inBlock x)) := inferInstance
    refine Fine.protect { s with function := id, localCount := 0 }
      (contents.run _ ⟨sane, hs.start, hs.ahead, hs.known⟩) rfl rfl (fun s' hs' hsize => ?_)
      fun _ _ _ => trivial
    exact ⟨{ hs' with function := Nat.lt_of_lt_of_le hs.sane.function hsize }, rfl, rfl⟩

theorem Safe.inLoop (breakTarget : Nat) (continueTarget counter : Option Nat)
    (hcounter : ∀ id ∈ counter, Held ids id) :
    Safe c b 0 ids (inLoop breakTarget continueTarget counter x) where
  run s hs := by
    have sane : State.Sane c { s with
        loops := { breakTarget, continueTarget, counter, regions := s.regions } :: s.loops } := by
      refine { hs.sane with counters := fun frame hframe id hid => ?_ }
      rcases List.mem_cons.1 hframe with rfl | hframe
      · have hlt : id < s.table.size := (hcounter id hid).lt hs.sane hs.known
        exact hlt
      · exact hs.sane.counters frame hframe id hid
    refine Fine.protect { s with
        loops := { breakTarget, continueTarget, counter, regions := s.regions } :: s.loops }
      (hx.run _ ⟨sane, hs.start, hs.ahead, hs.known⟩) rfl rfl (fun s' hs' _ => ?_)
      fun _ _ _ => trivial
    -- Leaving the loop drops its frame.
    exact ⟨{ hs' with
        counters := fun frame hframe => hs'.counters frame (List.mem_of_mem_tail hframe) },
      rfl, rfl⟩

instance (breakTarget : Nat) (continueTarget : Option Nat) :
    Safe c b 0 ids (inLoop breakTarget continueTarget none x) :=
  .inLoop x _ _ _ fun _ h => by cases h

instance (breakTarget : Nat) (continueTarget : Option Nat) (counter : Nat) [Held ids counter] :
    Safe c b 0 ids (inLoop breakTarget continueTarget (some counter) x) :=
  .inLoop x _ _ _ fun _ h => by
    cases h
    assumption

instance (e : Exclusion) (index : Nat) : Safe c b 0 ids (inRegion e index x) where
  run s hs := by
    refine Fine.protect { s with regions := e.set s.regions (some index) }
      (hx.run _ ⟨{ hs.sane with }, hs.start, hs.ahead, hs.known⟩) rfl rfl (fun s' hs' _ => ?_)
      fun _ _ _ => trivial
    exact ⟨{ hs' with }, rfl, rfl⟩

end Enclosing

/-! ### States, enumerations, namespaces and metadata -/

theorem Safe.checkDefault (isClaimed : Bool) {current : Option Nat} (what : String) (index : Nat)
    (hcurrent : ∀ id ∈ current, Held ids id) :
    Safe c b 0 ids (checkDefault isClaimed current what index) := by
  unfold Walk.checkDefault
  split
  · next previous =>
    have held : Held ids previous := hcurrent previous rfl
    infer_instance
  · infer_instance

instance (name : String) (index : Nat) : Safe c b 0 ids (checkState engine editor name index) := by
  have held : ∀ {ids : List Nat} (o : Option Nat), ∀ id ∈ o, Held (o.toList ++ ids) id := by
    intro ids o id hid
    cases hid
    infer_instance
  have engineState : ∀ {ids : List Nat}, Provides c b ids (view (·.engineState)) Option.toList :=
    .view fun s hs _ id hid => hs.engine id (Option.mem_toList.1 hid)
  have editorState : ∀ {ids : List Nat}, Provides c b ids (view (·.editorState)) Option.toList :=
    .view fun s hs _ id hid => hs.editor id (Option.mem_toList.1 hid)
  have defaults : ∀ {ids : List Nat}, Safe c b 0 ids (do
      checkDefault engine (← view (·.engineState)) "engine" index
      checkDefault editor (← view (·.editorState)) "editor" index) := by
    intro ids
    refine .provided engineState fun o => .bind (.checkDefault engine _ _ (held o)) fun _ => ?_
    exact .provided editorState fun o => .checkDefault editor _ _ (held o)
  unfold checkState
  infer_instance

instance : Safe c b 0 ids defaultWords := by
  unfold defaultWords
  refine .loop (fun r => .eat (.eat ?_ ?_) ?_) _ <;> infer_instance

instance [k : Held ids id] : Safe c b 0 ids (introduceState engine editor id) := by
  unfold introduceState
  refine .seq fun _ => .change fun s hs known => ?_
  have hid : id < s.table.size := k.lt hs known
  refine ⟨{ hs with engine := fun i hi => ?_, editor := fun i hi => ?_ }, rfl, rfl⟩
  · dsimp only at hi
    split at hi
    · cases hi
      exact hid
    · exact hs.engine i hi
  · dsimp only at hi
    split at hi
    · cases hi
      exact hid
    · exact hs.editor i hi

instance (name : String) (index : Nat) :
    Provides c b ids (declareState engine editor name index) fun id => [id] := by
  unfold declareState
  refine .seq fun _ => .provided inferInstance fun scope => ?_
  have create : Provides c b ([scope] ++ ids) (do
      let id ← addSymbol scope name (.state engine editor)
      introduceState engine editor id
      return id) fun id => [id] :=
    .provided inferInstance fun id => .seq fun _ => .held
  infer_instance

instance [Held ids enumeration] : Takes c b 0 ids (enumerationMembers enumeration) := by
  unfold enumerationMembers
  refine .after (.loop (fun ordinal => .seq fun isOver => ?_) _) fun _ => inferInstance
  split <;> infer_instance

instance (name : String) (index : Nat) :
    Provides c b ids (declareEnumeration name index) fun id => [id] := by
  unfold declareEnumeration
  refine .seq fun _ => .provided inferInstance fun scope => ?_
  have create : Provides c b ([scope] ++ ids) (do
      let id ← addSymbol scope name .enumeration
      attachMetadata id
      return id) fun id => [id] :=
    .provided inferInstance fun id => .seq fun _ => .held
  infer_instance

instance (scope : Nat) [Held ids scope] (name : Token) (index : Nat) :
    Provides c b ids (namespaceWithin scope name index) fun id => [id] := by
  unfold namespaceWithin
  refine .provided inferInstance fun found => ?_
  cases found with
  | some id =>
    refine .seq fun x => ?_
    split
    · exact .held
    · exact .seq fun _ => .never
  | none => exact .provided inferInstance fun id => .seq fun _ => .held

instance : Takes c b 0 ids namespacePath := by
  unfold namespacePath
  refine .seq fun first => .loop (fun path => .eat ?_ ?_) _ <;> infer_instance

instance (index : Nat) : Safe c b 0 ids (requireNamespaceLevel index) := by
  unfold requireNamespaceLevel
  infer_instance

instance (path : List Token) (index : Nat) :
    Provides c b ids (namespaceOf path index) fun id => [id] := by
  -- Every name leads into the namespace that the names before it lead to.
  have steps : ∀ (path : List Token) (ids : List Nat) (scope : Nat), Held ids scope →
      Provides c b ids (path.foldlM (fun scope name => namespaceWithin scope name index) scope)
        fun id => [id] := by
    intro path
    induction path with
    | nil => exact fun ids scope held => .held
    | cons name path ih =>
      intro ids scope held
      rw [List.foldlM_cons]
      exact .provided inferInstance fun id => ih _ id inferInstance
  unfold namespaceOf
  exact .provided inferInstance fun scope => steps path _ scope inferInstance

instance : Takes c b 0 ids metadataEntry := by
  unfold metadataEntry
  refine .seq fun key => .seq fun _ => .token inferInstance fun value => ?_
  dsimp only
  infer_instance

instance : Takes c b 1 ids metadataBlock := by
  unfold metadataBlock
  have waiting : ∀ entries : List (String × String), Safe c (b + 1) 0 ids
      (change fun s => { s with metadata := s.metadata ++ entries }) :=
    fun entries => .change fun _ hs _ => ⟨{ hs with }, rfl, rfl⟩
  infer_instance

/-! ### Simple statements -/

instance (place : Place) (kind : Kind) (index : Nat) :
    Safe c b 0 (place.symbols ++ ids) (assignedValue place kind index) := by
  unfold assignedValue
  split <;> infer_instance

instance : Safe c b 0 ids assignment := by
  unfold assignment
  refine .provided inferInstance fun place => .seq fun index => ?_
  refine .peek inferInstance fun kind => ?_
  dsimp only
  infer_instance

instance (place : Place) (op : Kind) : Safe c b 0 (place.symbols ++ ids) (stepPlace place op) := by
  unfold stepPlace
  cases place with
  | plain id type =>
    show Safe c b 0 ([id] ++ ids) _
    infer_instance
  | element id type =>
    dsimp only
    infer_instance
  | member id type isIndexed =>
    dsimp only
    infer_instance
  | unknown =>
    dsimp only
    infer_instance

instance (form : Form) : Safe c b 0 ids (formStatement form) := by
  unfold formStatement
  cases form <;> dsimp only <;> infer_instance

/-! ### Jumps -/

instance : Safe c b 0 ids simpleStatement := by
  have form : Safe c b 0 ids (position >>= fun pos => tokenCount >>= fun count => do
      if count < pos then throw .broken
      formStatement (← view fun s => statementForm s.tokens pos)) :=
    ⟨fun s hs => .inside hs (Safe.run s hs)⟩
  unfold simpleStatement
  infer_instance

instance (isParenthesised : Bool) : Safe c b 0 ids (depthNumber isParenthesised) := by
  unfold depthNumber
  refine .token inferInstance fun t => ?_
  split
  · split <;> infer_instance
  · infer_instance

theorem pos_of_depthNumber {isParenthesised : Bool} {s' : State} {depth : Nat}
    (h : depthNumber isParenthesised s = .ok depth s') : 0 < depth := by
  unfold depthNumber at h
  obtain ⟨index, s₁, -, h⟩ := bind_eq_ok.1 h
  obtain ⟨t, s₂, -, h⟩ := bind_eq_ok.1 h
  split at h
  · next text _ _ _ =>
    generalize Number.decimalWord? text.toList = number at h
    split at h
    · obtain ⟨_, s₃, -, h⟩ := bind_eq_ok.1 h
      cases h
      exact Nat.succ_pos _
    · exact absurd h (Never.ne_ok _ _ _)
  · split at h
    · exact absurd h (Never.ne_ok _ _ _)
    · cases h
      exact Nat.one_pos

/-- A jump leaves one loop at least. -/
theorem pos_of_jumpDepth {s' : State} {depth : Nat} (h : jumpDepth s = .ok depth s') :
    0 < depth := by
  unfold jumpDepth at h
  obtain ⟨isParenthesised, s₁, -, h⟩ := bind_eq_ok.1 h
  obtain ⟨depth', s₂, hdepth, h⟩ := bind_eq_ok.1 h
  have hpos := pos_of_depthNumber hdepth
  dsimp only at h
  split at h
  · obtain ⟨_, s₃, -, h⟩ := bind_eq_ok.1 h
    cases h
    exact hpos
  · cases h
    exact hpos

theorem Safe.jumpDepth {f : Nat → Walk α} (h : ∀ depth, Safe c b 0 ids (f depth)) :
    Safe c b 0 ids
      (Walk.jumpDepth >>= fun depth => Walk.ensure (fun _ => depth != 0) >>= fun _ => f depth) where
  run s hs := by
    have depths : Safe c b 0 ids Walk.jumpDepth := inferInstance
    have hrun := (depths.run s hs).and (p := fun depth _ => 0 < depth) fun _ _ => pos_of_jumpDepth
    refine hrun.bind fun depth s₁ _ sane onward grows post => ?_
    have checked : Safe c b 0 ids (Walk.ensure fun _ => depth != 0) :=
      .ensure fun _ _ _ => bne_iff_ne.2 (Nat.ne_of_gt post.2)
    exact (checked.bind fun _ => h depth).run s₁ (hs.next sane onward grows)

instance : Takes c b 1 ids breakStatement := by
  unfold breakStatement
  exact .stay inferInstance fun _ => .stay inferInstance fun index =>
    .skip (.jumpDepth fun depth => inferInstance)

instance : Takes c b 1 ids continueStatement := by
  unfold continueStatement
  refine .stay inferInstance fun _ => .stay inferInstance fun index =>
    .skip (.jumpDepth fun depth => ?_)
  refine .seq fun targets => ?_
  split <;> infer_instance

/-- A label has been seen with its colon. -/
instance : Takes c b 2 ids labelStatement := by
  unfold labelStatement
  refine .stay inferInstance fun _ => .stay inferInstance fun index => .advance fun name => ?_
  infer_instance

/-! ### Switches -/

instance (type : ValueType) : Safe c b 0 ids (caseLabel type) := by
  unfold caseLabel
  refine .seq fun literal => ?_
  cases literal with
  | some t => infer_instance
  | none =>
    refine .seq fun index => .seq fun path => ?_
    refine .provided inferInstance fun found => ?_
    cases found with
    | none => infer_instance
    | some id =>
      refine .seq fun _ => .seq fun x => ?_
      split <;> infer_instance

/-- A word that starts no clause is not taken, but then the switch is abandoned. -/
instance : Takes c b 0 ids clauseKind where
  run s hs := by
    have taken : Takes c b 0 ids advance := inferInstance
    have refused : ∀ context, Takes c b 0 ids (unexpected context : Walk Kind) := inferInstance
    unfold clauseKind
    rw [position_bind]
    refine (taken.run s hs).bind fun t s₁ _ sane onward grows took => ?_
    by_cases hkind : (t.kind == .kwCase || t.kind == .kwDefault) = true
    · rw [if_pos hkind]
      exact .ok sane (Nat.le_refl _) (Nat.le_refl _) took
    · rw [if_neg hkind]
      -- The token is put back before the report.
      have sane' : State.Sane c { s₁ with pos := s.pos } := { sane with pos := hs.sane.pos }
      have hs' : Starts c b 0 ids { s₁ with pos := s.pos } :=
        ⟨sane', hs.start, hs.sane.pos, (hs.next sane onward grows).known⟩
      exact ((refused _).run _ hs').of_never (Nat.le_refl _)

/-- The test that is still to be placed is carried from clause to clause. -/
def Clauses.symbols (clauses : Clauses) : List Nat := clauses.test.toList

instance (clauses : Clauses) (next : Nat) [h : HeldAll ids clauses.symbols] :
    Safe c b 0 ids (pendingTest clauses.test next) := by
  unfold pendingTest
  split
  · next test htest =>
    have held : Held ids test :=
      h.held test (by rw [Clauses.symbols, htest]; exact List.mem_cons_self)
    infer_instance
  · infer_instance

instance (start : Option Nat) : Safe c b 0 ids (defaultJump start) := by
  unfold defaultJump
  split <;> infer_instance

/-! ### Rules over what is nested inside -/

/-- There is another token. -/
theorem Safe.requireToken {x : Walk α} (hx : Safe c b 1 ids x) :
    Safe c b 0 ids (Walk.requireToken >>= fun _ => x) where
  run s hs := by
    unfold Walk.requireToken Walk.atEnd
    rw [bind_assoc, view_bind]
    by_cases hover : s.tokens.size ≤ s.pos
    · rw [if_pos (decide_eq_true hover)]
      exact .fatal
    · rw [if_neg (mt of_decide_eq_true hover)]
      have hahead : s.pos + 1 ≤ c := by
        rw [← hs.sane.count]
        exact Nat.lt_of_not_le hover
      exact hx.run s { hs with ahead := hahead }

section Nested

variable (inner : Walk Unit)

section Here

variable [hinner : Deeper c b 1 inner]

/-- Where the statements end, there is a token. -/
theorem Fine.statementsUntil (stops : Kind → Bool) (hs : Starts c b 0 ids s) :
    Fine c b s (fun _ s' => s'.pos + 1 ≤ c) (statementsUntil stops inner s) := by
  unfold Walk.statementsUntil
  refine .loop hs (fun _ s hs => .peek hs .fatal fun kind hs => ?_) ()
  dsimp only
  split
  · exact .ok hs.sane (Nat.le_refl _) (Nat.le_refl _) ⟨fun _ h => (by cases h), fun _ _ => hs.ahead⟩
  · refine ((hinner.takes b (Nat.le_refl b) ids).run s hs).bind fun _ s₁ _ sane _ _ took => ?_
    exact .ok sane (Nat.le_refl _) (Nat.le_refl _) ⟨fun _ _ => took, fun _ h => (by cases h)⟩

instance (stops : Kind → Bool) : Safe c b 0 ids (statementsUntil stops inner) :=
  ⟨fun _ hs => (Fine.statementsUntil inner stops hs).mono fun _ _ _ _ => trivial⟩

instance : Takes c b 0 ids (blockContents inner) where
  run s hs := by
    refine (Fine.statementsUntil inner _ hs).bind fun _ s₁ _ sane onward _ hahead => ?_
    exact .ok { sane with pos := hahead } (Nat.le_succ _) (Nat.le_refl _) (Nat.lt_succ_of_le onward)

instance : Safe c b 0 ids (body inner) := by
  unfold body
  exact .requireToken inferInstance

instance (counter limit resume : Nat) [Held ids counter] [Held ids limit] [Held ids start]
    [Held ids resume] [Held ids stop] :
    Safe c b 0 ids (countedLoop inner counter limit start resume stop) := by
  unfold countedLoop
  refine .seq fun counterSlot => .seq fun limitSlot => ?_
  have turns : Safe c b 0 ids (inLoop stop (some resume) (some counter) (body inner)) :=
    inferInstance
  refine .seq fun _ => .seq fun _ => .seq fun _ => ?_
  exact .seq fun _ => .bind turns fun _ => inferInstance

instance (value : Nat) [Held ids value] (type : ValueType) (clauses : Clauses) :
    Provides c b (clauses.symbols ++ ids)
    (switchClause inner value type clauses) Clauses.symbols := by
  unfold switchClause
  refine .seq fun index => .seq fun kind => ?_
  refine .provided inferInstance fun start => .provided inferInstance fun nextTest => ?_
  refine .seq fun _ => .seq fun _ => .seq fun _ => ?_
  refine .seq fun _ => .of_pure fun s _ known id hid => known id ?_
  exact List.mem_append_left _ hid

/-- Where the clauses end, there is a brace. -/
theorem Fine.clausesUntilBrace (value : Nat) [Held ids value] (type : ValueType)
    (hs : Starts c b 0 ids s) : Fine c b s
      (fun clauses s' => s'.pos + 1 ≤ c ∧ ∀ id ∈ clauses.symbols, id < s'.table.size)
      (clausesUntilBrace inner value type s) := by
  unfold Walk.clausesUntilBrace
  have hnone : Starts c b 0 (Clauses.symbols {} ++ ids) s := hs
  refine .carry Clauses.symbols hnone fun clauses s hs => .check hs ?_ fun hs => ?_
  -- A clause takes its keyword and keeps the targets known.
  · have takes : Takes c b 0 (clauses.symbols ++ ids) (switchClause inner value type clauses) :=
      inferInstance
    have offers : Provides c b (clauses.symbols ++ ids) (switchClause inner value type clauses)
        Clauses.symbols := inferInstance
    refine ((takes.run s hs).both (offers.run s hs)).bind fun clauses' s₁ _ sane _ _ post => ?_
    refine .ok sane (Nat.le_refl _) (Nat.le_refl _) ⟨fun _ h => ?_, fun _ h => (by cases h)⟩
    cases h
    exact post
  · have known := fun id hid => hs.known id (List.mem_append_left ids hid)
    refine .ok hs.sane (Nat.le_refl _) (Nat.le_refl _) ⟨fun _ h => (by cases h), fun _ h => ?_⟩
    cases h
    exact ⟨hs.ahead, known⟩

instance (value : Nat) [Held ids value] (type : ValueType) [Held ids stop] :
    Safe c b 0 ids (switchClauses inner value type stop) where
  run s hs := by
    refine (Fine.clausesUntilBrace inner value type hs).bind
      fun clauses s₁ _ sane onward grows ⟨hahead, known⟩ => ?_
    have rest : Safe c b 1 (clauses.symbols ++ ids) (do
        skip
        pendingTest clauses.test stop
        defaultJump clauses.default
        bind stop) := inferInstance
    exact rest.run s₁ { hs.provided sane onward grows known with ahead := hahead }

end Here

section Behind

variable [Deeper c (b + 1) 1 inner]

instance : Takes c b 0 ids (declaration inner) := by
  unfold declaration
  exact .after inferInstance fun m => .raise inferInstance fun type => inferInstance

instance : Takes c b 1 ids (whileStatement inner) := by
  unfold whileStatement
  infer_instance

end Behind

/-- The walk goes back to the last clause after the body, and returns. -/
instance [Deeper c b 1 inner] (resume : Nat) [Held ids start] [Held ids resume] [Held ids stop] :
    Safe c b 0 ids (forClauses inner start resume stop) := by
  unfold forClauses
  refine .seq fun _ => .seq fun _ => .seq fun _ => ?_
  refine .seq fun _ => .position fun increment hb hc => ?_
  refine .seq fun _ => .seq fun _ => .seq fun _ => ?_
  have clause : Safe c b 0 ids (simpleUnless .closeParen >>= fun _ => expectMark .closeParen) :=
    inferInstance
  have rest : Safe c b 0 ids (jump .jump start >>= fun _ => bind stop) := inferInstance
  simpa only [bind_assoc] using Safe.bind (.detour hb hc clause) fun _ => rest

/-- A name that is followed by a colon is the first of two tokens. -/
instance : Takes c b 1 ids (do
    if (← peekAt 1) == some .colon then labelStatement else plainStatement) where
  run s hs := by
    have label : Takes c b 2 ids labelStatement := inferInstance
    have plain : Takes c b 1 ids plainStatement := inferInstance
    show Fine c b s _ ((if (s.tokens[s.pos + 1]?.map Token.kind == some .colon) = true then
      labelStatement else plainStatement) s)
    cases ht : s.tokens[s.pos + 1]? with
    | none => exact plain.run s hs
    | some t =>
      have hs₂ : Starts c b 2 ids s := { hs with ahead := hs.sane.lt_of_token ht }
      split
      · exact label.run s hs₂
      · exact plain.run s hs

instance [Deeper c (b + 1) 1 inner] : Takes c b 1 ids (statementWith inner) := by
  unfold statementWith
  refine .peek_ahead fun kind => ?_
  split
  case h_1 h => cases h
  all_goals infer_instance

end Nested

/-! ### Going on after a fault -/

theorem statementEnd_le {tokens : Array Token} {i : Nat} (hi : i ≤ tokens.size) (depth : Nat) :
    statementEnd tokens i depth ≤ tokens.size := by
  refine scanFrom_invariant (fun _ _ => True) (fun r => r ≤ tokens.size) trivial
    (fun _ _ _ _ => Nat.max_le.2 ⟨hi, Nat.le_refl _⟩) (fun _ _ _ _ _ _ _ => trivial) ?_
  intro j depth t r ht _ hturn
  have hj : j < tokens.size := (Array.getElem?_eq_some_iff.1 ht).1
  unfold endTurn at hturn
  split at hturn
  · split at hturn
    · cases hturn
      exact hj
    · cases hturn
  · cases hturn
  · split at hturn
    · cases hturn
      exact Nat.le_of_lt hj
    · split at hturn
      · cases hturn
        exact hj
      · cases hturn
  · cases hturn

/-- The walk goes on behind the first token of the statement, and not behind the last of all. -/
theorem resumption_bounds {tokens : Array Token} {pos : Nat} (hstart : start < tokens.size)
    (hpos : start ≤ pos) (hsize : pos ≤ tokens.size) :
    start < resumption tokens start pos ∧ resumption tokens start pos ≤ tokens.size := by
  have hle := le_statementEnd tokens pos (braceBalance (tokens.extract start pos).toList).toNat
  have hend := statementEnd_le hsize (braceBalance (tokens.extract start pos).toList).toNat
  unfold resumption
  dsimp only
  split
  · next h =>
    simp only [Bool.and_eq_true, decide_eq_true_eq] at h
    omega
  · next h =>
    simp only [Bool.and_eq_true, decide_eq_true_eq, not_and] at h
    omega

theorem State.Sane.recover {s₁ : State} (hs : s.Sane c) (sane : s₁.Sane c)
    (grows : s.table.size ≤ s₁.table.size) (hpos : s.pos < c) (honward : s.pos ≤ s₁.pos) :
    (s₁.recover s.snapshot).Sane c ∧ s.pos < (s₁.recover s.snapshot).pos := by
  -- The walk resumes behind the start of the statement.
  have hbounds : s.pos < resumption s₁.tokens s.pos s₁.pos ∧
      resumption s₁.tokens s.pos s₁.pos ≤ c := by
    have h := sane.count
    rw [← h]
    exact resumption_bounds (h ▸ hpos) honward (h ▸ sane.pos)
  refine ⟨{ sane with
    pos := hbounds.2
    scope := Nat.lt_of_lt_of_le hs.scope grows
    function := Nat.lt_of_lt_of_le hs.function grows
    counters := fun frame hframe => sane.counters frame (List.mem_of_mem_drop hframe)
    visible := fun block hblock => sane.visible block (List.mem_of_mem_drop hblock) }, hbounds.1⟩

/-- A guarded statement takes a token, whether it is abandoned or not. -/
theorem Deeper.guarded {x : Walk Unit} (hx : Deeper c b 1 x) : Deeper c b 1 (guarded x) := by
  refine ⟨fun b' hb ids => ⟨fun s hs => ?_⟩⟩
  have hrun := (hx.takes s.pos (Nat.le_trans hb hs.start) ids).run s
    { hs with start := Nat.le_refl _ }
  generalize hr : x s = r at hrun
  cases hrun with
  | ok sane onward grows took =>
    rw [guarded_of_ok hr]
    exact .ok sane onward grows took
  | @abandoned s₁ sane start grows =>
    -- An abandoned statement never ends in front of its start.
    have hle : s.pos ≤ min s₁.pos s₁.tokens.size :=
      Nat.le_min.2 ⟨start, sane.count.symm ▸ hs.sane.pos⟩
    obtain ⟨hsane, hpos⟩ := hs.sane.recover sane grows hs.ahead start
    rw [guarded_of_abandoned hr, if_pos hle]
    exact .ok hsane (Nat.le_of_lt hpos) grows hpos
  | fatal =>
    rw [guarded_of_error hr (by decide)]
    exact .fatal

/-- A budget of one level for each token ahead is enough. -/
theorem deeper_statementUpTo (n : Nat) : ∀ b, c + 1 ≤ n + b → Deeper c b 1 (statementUpTo n) := by
  induction n with
  | zero =>
    refine fun b h => ⟨fun b' hb ids => ⟨fun s hs => ?_⟩⟩
    have := hs.start
    have := hs.ahead
    omega
  | succ n ih =>
    refine fun b h => ⟨fun b' hb ids => ?_⟩
    have inner : Deeper c (b' + 1) 1 (guarded (statementUpTo n)) := (ih (b' + 1) (by omega)).guarded
    exact inferInstanceAs (Takes c b' 1 ids (statementWith (guarded (statementUpTo n))))

instance : Takes c b 1 ids statement := by
  have nested : Deeper c b 1 (guarded (statementUpTo (c + 1))) :=
    (deeper_statementUpTo _ b (by omega)).guarded
  unfold statement
  exact .tokenCount inferInstance

end StateScript.Walk
