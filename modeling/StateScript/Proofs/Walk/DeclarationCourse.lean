import StateScript.Proofs.Walk.Course

/-! # The course of declarations

  Declarations make symbols in the first walk and find them again in the second. Each rule
  here says that its runs are courses and, where more depends on it, what the symbol is
  that it ends with.
-/

namespace StateScript.Walk

variable {editor engine : Bool} {h : Head} {m : Modifiers} {enumeration id scope : Nat}
  {role : Role} {s s' : State} {u : Unit} {inner : Walk Unit}

set_option synthInstance.maxSize 1000000000

variable {α β : Type} {T : Table} {o : Prospect} {f : Nat}

instance (index : Nat) (code : Code) (message : String) :
    Never (reject index code message : Walk α) where
  ne_ok s a s' h := by
    unfold reject at h
    obtain ⟨_, _, -, h⟩ := bind_eq_ok.1 h
    cases h

instance (index : Nat) (name : String) : Never (alreadyDeclared index name : Walk α) :=
  inferInstanceAs (Never (reject _ _ _))

/-! ### Targets and locals of the compiler's own -/

theorem Role.ne_function_of_isTarget (h : role.isTarget = true) : role ≠ .function := by
  rintro rfl
  cases h

theorem creates_target (hrole : role.isTarget = true) (index : Nat) (name : String)
    (hinside : s.function ≠ globalScope) (houter : s.function ≠ memberScope)
    (hpass : s.pass = .declare) :
    Creates o.table index role (addSymbol s.function name (.target none)) s := by
  rcases addSymbol_cases s.function name (.target none) s with ⟨hlt, hrun⟩ | hrun
  · exact .inl ⟨_, hrun, .move (.declare index hpass hlt houter (.target name hinside hrole))⟩
  · exact .inr ⟨_, hrun⟩

/-- A new symbol has a scope. -/
theorem owned_of_addSymbol {name : String} {kind : SymbolKind}
    (h : addSymbol scope name kind s = .ok id s') (hgrows : s'.table.Grows T) :
    T.scope? id = some scope := by
  obtain ⟨-, rfl, rfl⟩ := addSymbol_eq_ok h
  rw [hgrows.scope? (by simp), Table.scope?_add, if_pos rfl]

theorem gives_newTarget (hrole : role.isTarget = true) (index : Nat) (name : String) :
    Gives o f (keyed index role (addSymbol f name (.target none))) (o.table.IsTargetOf · f) := by
  refine gives_keyed (fun s id s₁ hrun hgrows => ?_) fun d hsound hd hf => ?_
  · obtain ⟨-, rfl, rfl⟩ := addSymbol_eq_ok hrun
    refine hgrows.isTargetOf ⟨?_, none, ?_⟩
    · rw [Table.scope?_add, if_pos rfl]
    · rw [Table.kind?_add, if_pos rfl]
  · rw [← hf]
    exact hsound.target (hd ▸ hrole)

theorem charted_target (hf : f ≠ globalScope) (hrole : role.isTarget = true) (index : Nat) :
    Charted o f (target index role) where
  respects := inferInstance
  run s hinside := by
    unfold target
    rw [view_bind]
    have hs : s.function ≠ globalScope := hinside.function ▸ hf
    have houter : s.function ≠ memberScope := hinside.function ▸ hinside.outer
    exact tracks_keyed (creates_target hrole index _ hs houter)
      (Role.ne_function_of_isTarget hrole)

theorem gives_target (hrole : role.isTarget = true) (index : Nat) :
    Gives o f (target index role) (o.table.IsTargetOf · f) := by
  intro s id s' hinside hrun hheads
  unfold target at hrun
  rw [view_bind, hinside.function] at hrun
  exact gives_newTarget hrole index _ s id s' hinside hrun hheads

/-- A new local. -/
theorem isLocal_of_addSymbol {name : String} {v : Variable}
    (h : addSymbol scope name (.var v) s = .ok id s') (hkind : v.kind = .local)
    (hgrows : s'.table.Grows T) : T.IsLocal id := by
  obtain ⟨-, rfl, rfl⟩ := addSymbol_eq_ok h
  refine hgrows.isLocal ⟨v, Table.var?_eq_some.2 ?_, hkind⟩
  rw [Table.kind?_add, if_pos rfl]

/-- A new variable. -/
theorem isVar_of_addSymbol {name : String} {v : Variable}
    (h : addSymbol scope name (.var v) s = .ok id s') (hgrows : s'.table.Grows T) : T.IsVar id := by
  obtain ⟨-, rfl, rfl⟩ := addSymbol_eq_ok h
  refine hgrows.isVar ⟨v, Table.var?_eq_some.2 ?_⟩
  rw [Table.kind?_add, if_pos rfl]

theorem creates_local (hrole : role = .counter ∨ role = .limit ∨ role = .value) (index : Nat)
    (name : String) (type : ValueType) (hinside : s.function ≠ globalScope)
    (houter : s.function ≠ memberScope) (hpass : s.pass = .declare) :
    Creates T index role (do
      let ordinal ← allocateLocal
      change fun s => { s with internalVariables := s.internalVariables + 1 }
      addSymbol s.function name
        (.var { kind := .local, type, storage := .stack ordinal, used := true })) s := by
  let v : Variable := { kind := .local, type, storage := .stack s.localCount, used := true }
  -- The count of the compiler's own locals goes first.
  let s₀ : State := { s with internalVariables := s.internalVariables + 1 }
  let s₁ : State := { s₀ with localCount := s.localCount + 1 }
  show (∃ s₂, addSymbol s.function name (.var v) s₁ = .ok s.table.size s₂ ∧ _) ∨
    ∃ s₂, addSymbol s.function name (.var v) s₁ = .error .broken s₂
  rcases addSymbol_cases s.function name (.var v) s₁ with ⟨hlt, hadd⟩ | hadd
  · have declares : Declares s₀ role s.function name (.var v) s₁ :=
      .inFrame hinside (.inr hrole) rfl rfl
    have hmove : Move T s₀ _ := .declare index hpass hlt houter declares
    exact .inl ⟨_, hadd, .trans (.aside s s.pos s.log s.rejected s.blocks s.metadata _)
      (.move hmove)⟩
  · exact .inr ⟨_, hadd⟩

theorem charted_internalLocal (hf : f ≠ globalScope)
    (hrole : role = .counter ∨ role = .limit ∨ role = .value) (index : Nat) (name : String)
    (type : ValueType) : Charted o f (internalLocal index role name type) where
  respects := inferInstance
  run s hinside := by
    unfold internalLocal
    rw [view_bind]
    have hs : s.function ≠ globalScope := hinside.function ▸ hf
    have houter : s.function ≠ memberScope := hinside.function ▸ hinside.outer
    have hne : role ≠ .function := by
      rintro rfl
      rcases hrole with h | h | h <;> cases h
    refine .bind inferInstance (tracks_keyed (creates_local hrole index name type hs houter) hne)
      fun id s₁ _ => ?_
    obtain ⟨blocks, hvisible⟩ := makeVisible_eq id s₁
    rw [bind_of_ok hvisible]
    exact .of_course (.aside ..)

theorem gives_internalLocal (hrole : role = .counter ∨ role = .limit ∨ role = .value) (index : Nat)
    (name : String) (type : ValueType) :
    Gives o f (internalLocal index role name type) o.table.IsLocal := by
  intro s id s' hinside hrun hheads
  unfold internalLocal at hrun
  rw [view_bind] at hrun
  obtain ⟨id₁, s₁, hkeyed, hrest⟩ := bind_eq_ok.1 hrun
  obtain ⟨blocks, hvisible⟩ := makeVisible_eq id₁ s₁
  rw [bind_of_ok hvisible] at hrest
  cases hrest
  refine gives_keyed (fun s id s₁ hcreate hgrows => ?_)
    (fun d hsound hd _ => ?_) s _ s₁ hinside hkeyed
    ⟨hheads.table, hheads.recalled, hheads.quiet⟩
  · exact isLocal_of_addSymbol hcreate rfl hgrows
  · apply hsound.isLocal
    rw [hd]
    rcases hrole with rfl | rfl | rfl <;> rfl

/-! ### Variables -/

theorem isTaken_eq_ok {name : String} {isThere : Bool} (h : isTaken name s = .ok isThere s')
    (houtside : s.function = globalScope) :
    isThere = (s.table.find? s.scope name isExclusive).isSome := by
  unfold isTaken inFunction at h
  rw [view_bind, houtside] at h
  change (view (·.scope) >>= fun scope => findChild scope name isExclusive >>= _) s = _ at h
  rw [view_bind] at h
  obtain ⟨found, s₁, hfind, hrest⟩ := bind_eq_ok.1 h
  obtain ⟨rfl, rfl⟩ := findChild_eq_ok hfind
  cases hrest
  rfl

/-- Outside of functions the name of a new variable is not taken. -/
theorem checkVariable_eq_ok {type : ValueType} {name : String} {index : Nat}
    (h : checkVariable m type name index s = .ok u s') (houtside : s.function = globalScope) :
    s.table.find? s.scope name isExclusive = none := by
  unfold checkVariable at h
  split at h
  · exact absurd h (Never.ne_ok _ _ _)
  · obtain ⟨isInner, s₁, hinner, h⟩ := bind_eq_ok.1 h
    cases hinner
    dsimp only at h
    split at h
    · exact absurd h (Never.ne_ok _ _ _)
    · obtain ⟨isThere, s₂, htaken, h⟩ := bind_eq_ok.1 h
      rw [isTaken_eq_ok htaken houtside] at h
      split at h
      · exact absurd h (Never.ne_ok _ _ _)
      · next hfree => simpa using hfree

/-- A symbol that is made and gets its metadata. -/
theorem creates_annotated {token : Nat} {owner : Nat} {name : String} {kind : SymbolKind}
    {s₁ : State} {create : Walk Nat} (hpass : s.pass = .declare) (houter : owner ≠ memberScope)
    (new : Declares s role owner name kind s₁) (hcreate : create s = (addSymbol owner name kind >>=
      fun id => attachMetadata id >>= fun _ => (pure id : Walk Nat)) s₁) :
    Creates T token role create s := by
  have htable : s₁.table = s.table := by cases new <;> rfl
  unfold Creates
  rw [hcreate, ← htable]
  rcases addSymbol_cases owner name kind s₁ with ⟨hlt, hadd⟩ | hadd
  · rw [bind_of_ok hadd]
    have hsize : s₁.table.size < (s₁.table.add (some owner) name kind).size := by simp
    rw [bind_of_ok (attachMetadata_eq hsize)]
    refine .inl ⟨_, rfl, ?_⟩
    have hdeclare : Move T s (s₁.declare token role owner name kind) :=
      .declare token hpass (htable ▸ hlt) houter new
    exact .trans (.move hdeclare) (.move (.annotate hsize))
  · rw [bind_of_error hadd]
    exact .inr ⟨_, rfl⟩

theorem allocate_memory {kind : VariableKind} (h : kind.usesMemory = true) (s : State) :
    allocate kind s = .ok (.memory s.memorySize) { s with memorySize := s.memorySize + 1 } := by
  unfold allocate
  rw [if_pos h]
  rfl

theorem allocate_stack {kind : VariableKind} (h : kind.usesMemory = false) (s : State) :
    allocate kind s = .ok (.stack s.localCount) { s with localCount := s.localCount + 1 } := by
  unfold allocate
  rw [h]
  rfl

/-- A variable as it is declared. -/
def Modifiers.variable (m : Modifiers) (kind : VariableKind) (type : ValueType)
    (storage : Storage) :
    Variable :=
  { kind, type, isConstant := m.isConst, isProperty := m.isProperty, storage,
    access := m.access.getD .everyone }

theorem creates_variable (m : Modifiers) (type : ValueType) {name : String} {index : Nat}
    (hinside : Inside o.table f s) (hpass : s.pass = .declare)
    (hcheck : checkVariable m type name index s = .ok () s) :
    Creates T index .variable (createVariable m type name (s.function != globalScope)
      (if s.function != globalScope then s.function else s.scope)) s := by
  let kind := variableKind m (s.function != globalScope)
  have hfunction : s.function ≠ memberScope := hinside.function ▸ hinside.outer
  cases hkind : kind.usesMemory with
  -- A cell of memory: a constant, a static variable or one outside of functions.
  | true =>
    have new : Declares s .variable (if s.function != globalScope then s.function else s.scope) name
        (.var (m.variable kind type (.memory s.memorySize)))
        { s with memorySize := s.memorySize + 1 } := by
      refine .memory (.inl ⟨rfl, fun houtside => ?_, fun hinside => ?_⟩) hkind rfl
      · rw [houtside]
        exact checkVariable_eq_ok hcheck houtside
      · exact if_pos (by simpa using hinside)
    have houter : (if s.function != globalScope then s.function else s.scope) ≠ memberScope := by
      split
      · exact hfunction
      · exact hinside.scope
    refine creates_annotated hpass houter new ?_
    unfold createVariable
    exact bind_of_ok (allocate_memory hkind s)
  | false =>
    -- Only a plain variable of a function has no cell of memory.
    have hlocal : (s.function != globalScope) = true ∧ kind = .local := by
      unfold kind variableKind at hkind ⊢
      split at hkind
      · cases hkind
      · split at hkind
        · next hconst hinner =>
          rw [if_neg hconst, if_pos hinner]
          rw [Bool.and_eq_true] at hinner
          exact ⟨hinner.1, rfl⟩
        · cases hkind
    have new : Declares s .variable s.function name
        (.var (m.variable kind type (.stack s.localCount)))
        { s with localCount := s.localCount + 1 } :=
      .inFrame (by simpa using hlocal.1) (.inl rfl) hlocal.2 rfl
    rw [if_pos hlocal.1]
    refine creates_annotated hpass hfunction new ?_
    unfold createVariable
    exact bind_of_ok (allocate_stack hkind s)

theorem charted_declareVariable (m : Modifiers) (type : ValueType) (name : String) (index : Nat) :
    Charted o f (declareVariable m type name index (f != globalScope)) where
  respects := inferInstance
  run s hinside := by
    unfold declareVariable
    rw [← hinside.function]
    refine .checked fun hcheck => ?_
    rw [view_bind]
    exact tracks_keyed (fun hpass => creates_variable m type hinside hpass (hcheck hpass)) nofun

theorem gives_declareVariable (m : Modifiers) (type : ValueType) (name : String) (index : Nat)
    (isInner : Bool) : Gives o f (declareVariable m type name index isInner) o.table.IsVar := by
  unfold declareVariable
  refine .checked fun s id s' hinside hrun hheads => ?_
  rw [view_bind] at hrun
  refine gives_keyed (fun s id s₁ hcreate hgrows => ?_)
    (fun d hsound hd _ => ?_) s id s' hinside hrun
    hheads
  · unfold createVariable at hcreate
    obtain ⟨storage, s₂, -, hcreate⟩ := bind_eq_ok.1 hcreate
    obtain ⟨id, s₃, hadd, hcreate⟩ := bind_eq_ok.1 hcreate
    obtain ⟨_, s₄, hattach, hcreate⟩ := bind_eq_ok.1 hcreate
    cases hcreate
    have attaches : Respects .any 0 (attachMetadata id) := inferInstance
    exact isVar_of_addSymbol hadd ((attaches.ok (Nat.zero_le _) hattach).table.trans hgrows)
  · apply hsound.isVar
    rw [hd]
    rfl

theorem paced_initializer (hid : T.IsVar id) : Paced T (initializer id) := by
  unfold initializer
  exact .seq fun value => paced_storeVariable hid value

/-- The code of an initial value that is computed once goes outside of all functions. -/
theorem charted_globalInitializer (hid : o.table.IsVar id) :
    Charted o f (globalInitializer id) where
  respects := inferInstance
  run s hinside hcontinues hheads := by
    unfold Continues at hcontinues
    rw [(Enclosure.globalInitializer id).ending_eq] at hcontinues
    rw [(Enclosure.globalInitializer id).final_eq] at hheads ⊢
    exact .outside ((paced_initializer hid).run _ hinside.counts hcontinues hheads.table)

/-- The first walk keeps the literal that a variable starts with. -/
theorem course_literal (id : Nat) (t : Token) (hpass : s.pass = .declare) :
    Course T s (final (modifyVariable id (fun v => { v with literal := some t }) s)) := by
  unfold modifyVariable
  rcases modifyKind_cases id (·.mapVariable ({ · with literal := some t })) s with hrun | hrun <;>
    rw [hrun]
  · exact .move (.literal id t hpass)
  · exact .refl s

instance (t : Token) (type : ValueType) (index : Nat) :
    Charted o f (foldConstant id t type index) where
  respects := inferInstance
  run s hinside := by
    rcases s.pass_cases with hpass | hpass
    · unfold foldConstant
      rw [emitting_bind_declare hpass, if_neg Bool.false_ne_true]
      exact .of_course (course_literal id t hpass)
    · -- In the second walk the literal is only checked.
      have paced : Paced o.table (do
          let own := t.kind.literalType
          if !own.convertsTo type then
            errorAt index .invalidCast
              s!"cannot initialise {type.render} with a {own.render} literal"
          let _ ← literalOperand t type) := by
        dsimp only
        infer_instance
      unfold foldConstant
      rw [emitting_bind_emit hpass, if_pos rfl]
      exact .of_paced hinside.counts

theorem charted_computedValue (hid : o.table.IsVar id) (m : Modifiers) (isInner : Bool) :
    Charted o f (computedValue m id isInner) := by
  have inner := charted_globalInitializer (f := f) hid
  have outer := paced_initializer hid
  unfold computedValue
  infer_instance

theorem charted_initialValue (hid : o.table.IsVar id) (m : Modifiers) (type : ValueType)
    (isInner : Bool) : Charted o f (initialValue m type id isInner) := by
  unfold initialValue
  refine .seq fun start => .seq fun literal => ?_
  split
  · infer_instance
  · exact charted_computedValue hid m isInner

theorem charted_variableValue (hid : o.table.IsVar id) (m : Modifiers) (type : ValueType)
    (name : String) (index : Nat) (isInner : Bool) :
    Charted o f (variableValue m type name index id isInner) := by
  have value := charted_initialValue (f := f) hid m type isInner
  unfold variableValue
  infer_instance

instance (type : ValueType) (name : Token) (index : Nat) :
    Charted o f (variableDeclaration m type name index) := by
  unfold variableDeclaration
  refine .inFunction ?_
  refine .bind_gives (charted_declareVariable m type name.text index)
    (gives_declareVariable m type _ index _)
    fun id hid => ?_
  exact .seq fun _ => charted_variableValue hid ..

instance : Paced T modifiers := by
  unfold modifiers
  refine .loop (fun m => .seq fun next => ?_) _
  split
  · infer_instance
  · split <;> infer_instance

/-! ### Functions -/

/-- Parameters only add to the table and to the records. -/
theorem parametrise_eq (function : Nat) (all : List (Parameter × Nat)) (s : State) :
    ∃ table declared, s.parametrise function all = { s with table, declared } := by
  induction all generalizing s with
  | nil => exact ⟨_, _, rfl⟩
  | cons p all ih =>
    obtain ⟨table, declared, h⟩ := ih (s.declare p.1.index .parameter function p.1.name.text
      (.var (p.1.variable p.2)))
    exact ⟨table, declared, h⟩

theorem introduce_eq (h : Head) (s : State) :
    ∃ table declared, s.introduce h = { s with table, declared, metadata := [] } := by
  obtain ⟨table, declared, h⟩ := parametrise_eq s.table.size h.parameters.zipIdx
    ((s.declare h.token (functionRole h.modifiers) s.scope h.name (.function h.function)).annotate
      s.table.size)
  exact ⟨table, declared, h⟩

/-- The first walk makes the function. -/
theorem declareFunction_of_declare (hpass : s.pass = .declare) (admits : s.Admits h) :
    declareFunction h.modifiers h.returnType h.name h.token h.parameters s = .ok s.table.size
      ((s.declare h.token (functionRole h.modifiers) s.scope h.name (.function h.function)).annotate
        s.table.size) := by
  unfold declareFunction
  rw [bind_of_ok ((declaring_of_declare hpass).trans admits.checked), view_bind]
  have hsize : s.table.size < (s.table.add (some s.scope) h.name
      (.function h.function)).size := by simp
  have hcreate : (addSymbol s.scope h.name (.function h.function) >>= fun id =>
      attachMetadata id >>= fun _ => (pure id : Walk Nat)) s = .ok s.table.size
        ({ s with table := s.table.add (some s.scope) h.name (.function h.function) }.annotate
          s.table.size) := by
    rw [bind_of_ok (addSymbol_of_lt admits.scope h.name (.function h.function)),
      bind_of_ok (attachMetadata_eq hsize)]
    rfl
  exact keyed_of_declare hpass hcreate

/-- The first walk makes the function, or its check has failed. -/
theorem declareFunction_cases (h : Head) (hmethod : h.modifiers.flags.method = false)
    (hpass : s.pass = .declare) (houter : s.scope ≠ memberScope) : s.Admits h ∨
    Doomed (declareFunction h.modifiers h.returnType h.name h.token h.parameters s) ∨
    ∃ e s', declareFunction h.modifiers h.returnType h.name h.token h.parameters s = .error e s' ∧
      s'.log.hasErrors = true := by
  have checks : Checks (checkFunction h.modifiers h.returnType h.name h.token h.parameters) :=
    inferInstance
  have hdeclare := declaring_of_declare
    (x := checkFunction h.modifiers h.returnType h.name h.token h.parameters) hpass
  unfold declareFunction
  rcases checks.run s hpass with ⟨_, hrun⟩ | hdoomed | ⟨e, s', hrun, hlog⟩
  · by_cases hscope : s.scope < s.table.size
    · exact .inl ⟨hrun, hscope, houter, hmethod⟩
    · -- The scope is always there, but that is not known here.
      have hbroken : Doomed ((addSymbol s.scope h.name (.function h.function) >>= fun id =>
          attachMetadata id >>= fun _ => (pure id : Walk Nat)) s) := by
        have hadd : addSymbol s.scope h.name (.function h.function) s = .error .broken s :=
          if_neg hscope
        rw [bind_of_error hadd]
        exact .inr rfl
      rw [bind_of_ok (hdeclare.trans hrun), view_bind]
      exact .inr (.inl (keyed_of_doomed hpass hbroken))
  · rw [← hdeclare] at hdoomed
    exact .inr (.inl hdoomed.bind)
  · exact .inr (.inr ⟨e, s', bind_of_error (hdeclare.trans hrun), hlog⟩)

/-- The second walk finds the function again, or goes no further. -/
theorem declareFunction_of_emit (h : Head) (hpass : s.pass = .emit) :
    (∃ d : Declared, declareFunction h.modifiers h.returnType h.name h.token h.parameters s =
      .ok d.symbol (s.retrieve h.token (functionRole h.modifiers) d.symbol)) ∨
    declareFunction h.modifiers h.returnType h.name h.token h.parameters s = .error .abandoned s ∨
    Doomed (declareFunction h.modifiers h.returnType h.name h.token h.parameters s) := by
  unfold declareFunction
  rw [bind_of_ok (declaring_of_emit hpass), view_bind]
  rcases keyed_of_emit hpass with ⟨d, -, hrun⟩ | ⟨hrun, -⟩ | ⟨hend, -⟩
  · exact .inl ⟨d, hrun⟩
  · exact .inr (.inl hrun)
  · exact .inr (.inr (.inl hend))

theorem declareParameters_of_declare {function : Nat} {s : State} (hpass : s.pass = .declare)
    (h : function < s.table.size) (all : List Parameter) :
    declareParameters function all s = .ok () (s.parametrise function all.zipIdx) := by
  unfold declareParameters
  generalize all.zipIdx = numbered
  induction numbered generalizing s with
  | nil => rfl
  | cons p numbered ih =>
    have hfirst : declareParameter function p.1 p.2 s = .ok () (s.declare p.1.index .parameter
        function p.1.name.text (.var (p.1.variable p.2))) := by
      unfold declareParameter
      rw [bind_of_ok (keyed_of_declare hpass (addSymbol_of_lt h p.1.name.text _))]
      rfl
    show (declareParameter function p.1 p.2 >>= fun _ =>
      (numbered.forM fun x => declareParameter function x.1 x.2 : Walk Unit)) s = _
    rw [bind_of_ok hfirst]
    refine ih hpass ?_
    show function < (s.table.add _ _ _).size
    rw [Table.size_add]
    exact Nat.lt_succ_of_lt h

theorem size_annotate (s : State) (owner : Nat) :
    (s.annotate owner).table.size = s.table.size + s.metadata.length := by
  unfold State.annotate
  dsimp only
  generalize s.table = table
  induction s.metadata generalizing table with
  | nil => rfl
  | cons entry rest ih =>
    rw [List.foldl_cons, ih, Table.size_add, List.length_cons]
    omega

/-- The first walk makes the parameters of a new function. -/
theorem introduce_of_declare (hpass : s.pass = .declare) :
    declareParameters s.table.size h.parameters
      ((s.declare h.token (functionRole h.modifiers) s.scope h.name (.function h.function)).annotate
        s.table.size) = .ok () (s.introduce h) := by
  have hsize : s.table.size < ((s.declare h.token (functionRole h.modifiers) s.scope h.name
      (.function h.function)).annotate s.table.size).table.size := by
    rw [size_annotate]
    show _ < (s.table.add _ _ _).size + _
    rw [Table.size_add]
    omega
  have hpass' : ((s.declare h.token (functionRole h.modifiers) s.scope h.name
      (.function h.function)).annotate s.table.size).pass = .declare := hpass
  exact declareParameters_of_declare hpass' hsize h.parameters

/-- The second walk finds the parameters again. -/
theorem declareParameters_of_emit {function : Nat} {all : List Parameter} {s : State}
    (hpass : s.pass = .emit) (h : declareParameters function all s = .ok u s') :
    Course T s s' ∧ ∃ recalled, s' = { s with recalled } := by
  unfold declareParameters at h
  generalize all.zipIdx = numbered at h
  induction numbered generalizing s with
  | nil =>
    cases h
    exact ⟨.refl _, _, rfl⟩
  | cons p numbered ih =>
    obtain ⟨_, s₁, hfirst, hrest⟩ := bind_eq_ok.1 h
    unfold declareParameter at hfirst
    obtain ⟨id, s₂, hkeyed, hfirst⟩ := bind_eq_ok.1 hfirst
    cases hfirst
    obtain ⟨d, -, rfl, rfl⟩ := found_of_keyed hpass hkeyed
    have hrecall : Move T s (s.retrieve p.1.index .parameter d.symbol) :=
      .retrieve hpass (by decide)
    have hpass₁ : (s.retrieve p.1.index .parameter d.symbol).pass = .emit := hpass
    obtain ⟨hcourse, recalled, rfl⟩ := ih hpass₁ hrest
    exact ⟨.trans (.move hrecall) hcourse, recalled, rfl⟩

/-! ### Bodies -/

/-- A walk that is never abandoned. -/
class Lasting (x : Walk α) : Prop where
  ending_ne : ∀ s, ending (x s) ≠ some .abandoned

instance (a : α) : Lasting (pure a : Walk α) := ⟨fun _ h => by cases h⟩

instance (g : State → α) : Lasting (view g) := ⟨fun _ h => by cases h⟩

instance : Lasting peek := inferInstanceAs (Lasting (view _))

instance : Lasting skip := ⟨fun _ h => by cases h⟩

theorem Lasting.bind {x : Walk α} {k : α → Walk β} (hx : Lasting x) (hk : ∀ a, Lasting (k a)) :
    Lasting (x >>= k) where
  ending_ne s := by
    have h := hx.ending_ne s
    cases hrun : x s with
    | ok a s₁ =>
      rw [bind_of_ok hrun]
      exact (hk a).ending_ne s₁
    | error e s₁ =>
      rw [hrun] at h
      rw [bind_of_error hrun]
      exact h

instance (x : Walk α) (k : α → Walk β) [hx : Lasting x] [hk : ∀ a, Lasting (k a)] :
    Lasting (x >>= k) := hx.bind hk

theorem Lasting.loop {turn : α → Walk (Turn α β)} (h : ∀ a, Lasting (turn a)) (a : α) :
    Lasting (loop a turn) := by
  have count : Lasting tokenCount := inferInstanceAs (Lasting (view _))
  exact loop_induction (P := Lasting) (fun _ => count.bind) ⟨fun _ h => by cases h⟩
    (fun _ => inferInstance) (fun a _ => (h a).bind) a

instance : Lasting (unexpectedEnd : Walk α) where
  ending_ne s := by
    obtain ⟨log, -, -, -, hrun⟩ := fatal_eq (α := α) .unexpectedEndOfFile "unexpected end of file" s
    unfold unexpectedEnd
    rw [hrun]
    exact fun h => by cases h

instance (x : Walk Unit) : Lasting (guarded x) where
  ending_ne s := by
    cases h : x s with
    | ok a s₁ =>
      rw [guarded_of_ok h]
      exact fun h => by cases h
    | error e s₁ =>
      by_cases he : e = .abandoned
      · subst he
        rw [guarded_of_abandoned h]
        split <;> exact fun h => by cases h
      · rw [guarded_of_error h he]
        exact fun h => he (Option.some.inj h)

theorem lasting_blockContents (inner : Walk Unit) [Lasting inner] :
    Lasting (blockContents inner) := by
  have repeated : Lasting (statementsUntil (· == .closeBrace) inner) := by
    refine .loop (fun _ => .bind inferInstance fun next => ?_) ()
    cases next with
    | none => exact inferInstanceAs (Lasting unexpectedEnd)
    | some kind =>
      dsimp only
      split <;> infer_instance
  unfold blockContents
  infer_instance

instance (stops : Kind → Bool) [Charted o f inner] : Charted o f (statementsUntil stops inner) := by
  unfold statementsUntil
  refine .loop (fun _ => .seq fun next => ?_) _
  split <;> infer_instance

/-- Where the body of a function starts. -/
def State.into (s : State) (function : Nat) : State :=
  { s.inside function with blocks := [] :: s.blocks }

/-- Back where the function has been entered. -/
def State.leave (s outer : State) : State :=
  { s with blocks := s.blocks.tail, scope := outer.scope, function := outer.function }

theorem inFunctionOf_eq (id : Nat) (x : Walk Unit) (s : State) :
    ending (inFunctionOf id x s) = ending (x (s.into id)) ∧
    final (inFunctionOf id x s) = (final (x (s.into id))).leave s := by
  have henter : (Enclosure.inBlock x).enter ((Enclosure.inScope id (inBlock x)).enter
      ((Enclosure.inFunctionOf id x).enter s)) = s.into id := rfl
  rw [(Enclosure.inFunctionOf id x).ending_eq, (Enclosure.inFunctionOf id x).final_eq,
    (Enclosure.inScope id _).ending_eq, (Enclosure.inScope id _).final_eq,
    (Enclosure.inBlock x).ending_eq, (Enclosure.inBlock x).final_eq, henter]
  generalize final (x (s.into id)) = u
  exact ⟨rfl, rfl⟩

theorem finishFunction_of_declare (hpass : s.pass = .declare)
    (hcontinues : Continues ((emit .ret [] >>= fun _ => finishFunction id) s)) :
    final ((emit .ret [] >>= fun _ => finishFunction id) s) =
      { s with table := layFrame s.table id s.localCount } := by
  rw [bind_of_ok (emit_of_declare .ret [] hpass)] at hcontinues ⊢
  unfold finishFunction at hcontinues ⊢
  rw [emitting_bind_declare hpass, if_neg Bool.false_ne_true] at hcontinues ⊢
  rcases finishFrame_cases id s with hrun | hrun <;> rw [hrun] at hcontinues ⊢
  · rfl
  · exact absurd hcontinues (not_continues_broken s)

/-- Reports only add to the log. -/
theorem forM_reports {items : List α} {report : α → Walk Unit}
    (h : ∀ x s, ∃ log, final (report x s) = { s with log }) (s : State) :
    ∃ log, final ((items.forM report : Walk Unit) s) = { s with log } := by
  induction items generalizing s with
  | nil => exact ⟨_, rfl⟩
  | cons x items ih =>
    obtain ⟨log, hfirst⟩ := h x s
    show ∃ log, final ((report x >>= fun _ => (items.forM report : Walk Unit)) s) = _
    cases hrun : report x s with
    | ok a s₁ =>
      rw [hrun] at hfirst
      obtain ⟨log', hrest⟩ := ih s₁
      rw [bind_of_ok hrun, hrest]
      exact ⟨log', by rw [show s₁ = _ from hfirst]⟩
    | error e s₁ =>
      rw [hrun] at hfirst
      rw [bind_of_error hrun]
      exact ⟨log, hfirst⟩

theorem finishFunction_of_emit (hpass : s.pass = .emit)
    (hcontinues : Continues ((emit .ret [] >>= fun _ => finishFunction id) s)) :
    ∃ log, final ((emit .ret [] >>= fun _ => finishFunction id) s) =
      { s.emit .ret [] none with log } := by
  rcases emit_of_emit .ret [] hpass with hemit | hemit
  · have hpass' : (s.emit .ret [] none).pass = .emit := hpass
    rw [bind_of_ok hemit]
    unfold finishFunction checkUnused
    rw [emitting_bind_emit hpass', if_pos rfl, emitting_bind_emit hpass', if_pos rfl]
    unfold ensureScopes
    -- Unused symbols are reported, and nothing else is done.
    rcases ensure_bind_cases _ _ (s.emit .ret [] none) with hrun | hrun <;> rw [hrun]
    · rw [view_bind]
      refine forM_reports (fun x s => ?_) _
      unfold reportAt
      dsimp only
      split <;> exact ⟨_, rfl⟩
    · exact ⟨_, rfl⟩
  · rw [bind_of_error hemit] at hcontinues
    exact absurd hcontinues (not_continues_broken s)

theorem expectMark_of_token {t : Token} (h : s.tokens[s.pos]? = some t) :
    expectMark t.kind s = .ok () { s with pos := s.pos + 1 } := by
  have hpeek : peek s = .ok (some t.kind) s := by
    show EStateM.Result.ok (s.tokens[s.pos]?.map Token.kind) s = _
    rw [h]
    rfl
  unfold expectMark expect
  rw [bind_assoc, bind_of_ok hpeek]
  dsimp only
  rw [if_pos rfl, bind_of_ok (advance_of_token h)]
  rfl

section Declarations

variable {inner : Walk Unit} [hinner : ∀ f, Charted o f inner] [hlasting : Lasting inner]
  [hloud : Respects .loud 0 inner]

omit hinner hlasting hloud in
theorem Inside.of_no_loops (hfunction : s.function = f) (houter : f ≠ memberScope)
    (hscope : s.scope ≠ memberScope) (hsize : memberScope < s.table.size) (hfaithful : s.Faithful)
    (hwellFormed : s.table.WellFormed) (hloops : s.loops = []) : Inside T f s := by
  refine ⟨hfunction, houter, hscope, hsize, hfaithful, hwellFormed, ?_, ?_, ?_, fun _ => hloops⟩
  · unfold Counts
    rw [hloops]
    exact fun _ h => by cases h
  · rw [hloops]
    exact fun _ h => by cases h
  · rw [hloops]
    exact fun _ h => by cases h

omit hloud in
/-- What stands between the braces of a function is run to its end. -/
theorem course_functionContents (hinside : Inside o.table id s)
    (hcontinues : Continues (functionContents inner id s))
    (hheads : Heads o (final (functionContents inner id s))) :
    ∃ s₁, Course o.table s s₁ ∧ s₁.pass = s.pass ∧
      functionContents inner id s = (emit .ret [] >>= fun _ => finishFunction id) s₁ := by
  have charted : Charted o id (blockContents inner) := inferInstance
  have rest : Respects .any 0 (emit .ret [] >>= fun _ => finishFunction id) := inferInstance
  have hlast := (lasting_blockContents inner).ending_ne s
  have hcourse := charted.run s hinside
  unfold functionContents at hcontinues hheads ⊢
  cases hrun : blockContents inner s with
  | ok u s₁ =>
    rw [bind_of_ok hrun] at hheads ⊢
    rw [hrun] at hcourse
    exact ⟨s₁, hcourse (continues_ok u s₁) (rest.heads hheads),
      (charted.respects.ok (Nat.zero_le _) hrun).pass, rfl⟩
  -- The statements of a block are abandoned one by one, never the block.
  | error e s₁ =>
    rw [hrun] at hlast
    rw [bind_of_error hrun] at hcontinues
    rcases hcontinues with h | h
    · cases h
    · exact absurd h hlast

omit hinner hlasting hloud in
theorem Heads.of_leave {outer : State} (h : Heads o (s.leave outer)) : Heads o s :=
  ⟨h.table, h.recalled, h.quiet⟩

omit hinner hlasting hloud in
theorem Inside.into (h : Inside T globalScope s) (hid : id ≠ memberScope) :
    Inside T id (s.into id) :=
  .of_no_loops rfl hid hid h.size h.faithful h.wellFormed (h.outside rfl)

omit hloud in
/-- The first walk lays out the frame of a function. -/
theorem tracks_framed {s₀ : State} {pos : Nat} (hs₀ : s₀ = { s.introduce h with pos })
    (hinside : Inside o.table globalScope s₀) (hpass : s.pass = .declare) (admits : s.Admits h)
    (hbody : h.modifiers.flags.imported = false) (hsize : memberScope < s.table.size) :
    Tracks o s (inFunctionOf s.table.size (functionContents inner s.table.size) s₀) := by
  intro hcontinues hheads
  obtain ⟨table, declared, hintroduce⟩ := introduce_eq h s
  have hentered : Course o.table ((s.introduce h).inside s.table.size) (s₀.into s.table.size) := by
    rw [hs₀]
    exact .aside ..
  -- What is put back at the end is what stood there before the function.
  have hleft : s₀.scope = s.scope ∧ s₀.function = s.function ∧ s₀.pass = s.pass := by
    rw [hs₀, hintroduce]
    exact ⟨rfl, rfl, rfl⟩
  obtain ⟨hend, hfinal⟩ := inFunctionOf_eq s.table.size (functionContents inner s.table.size) s₀
  unfold Continues at hcontinues
  rw [hend] at hcontinues
  rw [hfinal] at hheads ⊢
  obtain ⟨s₁, hcourse, hpass₁, hrun⟩ :=
    course_functionContents (hinside.into (Nat.ne_of_gt hsize)) hcontinues hheads.of_leave
  rw [hrun] at hcontinues
  -- The frame is laid out in the state in which the body has ended.
  rw [hrun, finishFunction_of_declare (hpass₁.trans (hleft.2.2.trans hpass)) hcontinues,
    State.leave,
    hleft.1, hleft.2.1]
  exact .trans (.framed hpass admits hbody (.trans hentered hcourse)) (.aside ..)

omit hloud in
/-- The second walk puts a return behind the body of a function. -/
theorem tracks_filled {s₀ : State} {token : Nat} (hinside : Inside o.table globalScope s₀)
    (hpass : s.pass = .emit) (hscope : s₀.scope = s.scope) (hfunction : s.function = globalScope)
    (hpass₀ : s₀.pass = .emit) (hid : o.table.IsDefined id) (opens : Opens s.tokens token)
    (hparameters : Course o.table (s.retrieve token .function id) s₀) :
    Tracks o s (inFunctionOf id (functionContents inner id) s₀) := by
  intro hcontinues hheads
  obtain ⟨hend, hfinal⟩ := inFunctionOf_eq id (functionContents inner id) s₀
  unfold Continues at hcontinues
  rw [hend] at hcontinues
  rw [hfinal] at hheads ⊢
  -- The scope of members is no function, so it is not the one being filled.
  have hne : id ≠ memberScope := by
    rintro rfl
    obtain ⟨x, hx, -⟩ := hid
    cases (Table.function?_eq_some.1 hx).symm.trans o.member
  obtain ⟨s₁, hcourse, hpass₁, hrun⟩ :=
    course_functionContents (hinside.into hne) hcontinues hheads.of_leave
  rw [hrun] at hcontinues
  obtain ⟨log, hfinish⟩ := finishFunction_of_emit (hpass₁.trans hpass₀) hcontinues
  have hentered : Course o.table (s₀.inside id) (s₀.into id) := .aside ..
  rw [hrun, hfinish, State.leave, hscope, hinside.function, ← hfunction]
  exact .trans (.filled hpass hfunction hid opens hparameters (.trans hentered hcourse)) (.aside ..)

omit hloud in
/-- The first walk at the rest of a function whose parameters stand between the tokens `h.token` and
    `s.pos`. -/
theorem tracks_introduced (hinside : Inside o.table globalScope (s.introduce h))
    (hsize : memberScope < s.table.size) (hpass : s.pass = .declare) (admits : s.Admits h)
    (hopens : Opens s.tokens h.token → s.tokens[s.pos]?.map Token.kind = some .openBrace) :
    Tracks o s ((if h.modifiers.flags.imported then withoutBody h.name
      else functionBody inner s.table.size) (s.introduce h)) := by
  obtain ⟨table, declared, hintroduce⟩ := introduce_eq h s
  cases hbody : h.modifiers.flags.imported with
  -- An imported function has no body.
  | true =>
    rw [if_pos rfl]
    exact .after (.move (.introduce hpass admits (.inl hbody))) (.of_paced hinside.counts)
  | false =>
    rw [if_neg Bool.false_ne_true]
    unfold functionBody
    cases hmark : expectMark .openBrace (s.introduce h) with
    | ok u s₁ =>
      rw [bind_of_ok hmark]
      obtain ⟨-, hs₁⟩ := expectMark_eq_ok hmark
      have mark : Respects .any 0 (expectMark .openBrace) := inferInstance
      exact tracks_framed hs₁ (hinside.keeps (mark.ok (Nat.zero_le _) hmark)) hpass admits hbody
        hsize
    -- Without an opening brace the walk stops here, and the function does not open.
    | error e s₁ =>
      have hclosed : ¬ Opens s.tokens h.token := by
        intro hopen
        obtain ⟨t, ht, hkind⟩ := Option.map_eq_some_iff.1 (hopens hopen)
        have ht' : (s.introduce h).tokens[(s.introduce h).pos]? = some t := by
          rw [hintroduce]
          exact ht
        have hok := expectMark_of_token ht'
        rw [hkind, hmark] at hok
        cases hok
      have hsteps : Tracks o (s.introduce h) (expectMark .openBrace (s.introduce h)) :=
        .of_paced hinside.counts
      rw [hmark] at hsteps
      rw [bind_of_error hmark]
      exact .after (.move (.introduce hpass admits (.inr hclosed))) hsteps

omit hinner hlasting hloud in
/-- Without an error the second walk gets through what it may abandon. -/
theorem Tracks.bind_loud {s₀ : State} {x : Walk α} [hx : Respects .loud 0 x] {k : α → Walk β}
    (hinside : Inside T f s₀) (hpass : s₀.pass = .emit)
    (hk : ∀ a s₁, x s₀ = .ok a s₁ → Tracks o s (k a s₁)) : Tracks o s ((x >>= k) s₀) := by
  cases hrun : x s₀ with
  | ok a s₁ =>
    rw [bind_of_ok hrun]
    exact hk a s₁ hrun
  | error e s₁ =>
    rw [bind_of_error hrun]
    intro hcontinues hheads
    have hne : ending (x s₀) ≠ some .abandoned :=
      hinside.ending_ne hpass (by rw [hrun]; exact hheads)
    rw [hrun] at hne
    rcases hcontinues with h | h
    · cases h
    · exact absurd h hne

/-- The second walk at the rest of a function whose parameters stand between the tokens `h.token`
    and `s.pos`. -/
theorem tracks_recalled (hinside : Inside o.table f s) (hpass : s.pass = .emit)
    (hopens : s.tokens[s.pos]?.map Token.kind = some .openBrace → Opens s.tokens h.token) :
    Tracks o s ((declareParameters id h.parameters >>= fun _ =>
      if h.modifiers.flags.imported then withoutBody h.name else functionBody inner id)
      (s.retrieve h.token (functionRole h.modifiers) id)) := by
  refine .of_heads fun hstart => ?_
  -- What is found again now is among what has been found at the end.
  have hrecalled := hstart.recalled _ List.mem_cons_self
  have hinside₁ : Inside o.table f (s.retrieve h.token (functionRole h.modifiers) id) :=
    { hinside with }
  refine .bind_loud hinside₁ hpass fun _ s₁ hparameters => ?_
  obtain ⟨hcourse, recalled, hs₁⟩ :=
    declareParameters_of_emit (T := o.table) (s := s.retrieve _ _ id) hpass hparameters
  have hinside₂ : Inside o.table f s₁ := by
    rw [hs₁]
    exact { hinside with }
  have hpass₁ : s₁.pass = .emit := by
    rw [hs₁]
    exact hpass
  cases hbody : h.modifiers.flags.imported with
  | true =>
    rw [if_pos rfl]
    have hrole : functionRole h.modifiers = .imported := if_pos hbody
    have hrecall : Move o.table s (s.retrieve h.token (functionRole h.modifiers) id) :=
      .retrieve hpass (by rw [hrole]; decide)
    exact .after (.trans (.move hrecall) hcourse) (.of_paced hinside₂.counts)
  | false =>
    rw [if_neg Bool.false_ne_true]
    have hrole : functionRole h.modifiers = .function :=
      if_neg (by rw [hbody]; exact Bool.false_ne_true)
    rw [hrole] at hrecalled hcourse
    -- A function with a body was declared outside of all others.
    obtain ⟨hglobal, hid⟩ := (o.sound _ hrecalled).function rfl
    unfold functionBody
    refine .bind_loud hinside₂ hpass₁ fun _ s₂ hmark => ?_
    obtain ⟨⟨t, ht, hkind⟩, rfl⟩ := expectMark_eq_ok hmark
    have opens : Opens s.tokens h.token := by
      rw [hs₁] at ht
      apply hopens
      rw [show s.tokens[s.pos]? = some t from ht, Option.map_some, hkind]
    have hf : f = globalScope := hinside.function.symm.trans hglobal
    subst hf
    have hs₂ : Inside o.table globalScope { s₁ with pos := s₁.pos + 1 } :=
      { hinside₂ with }
    have hscope : s₁.scope = s.scope := by rw [hs₁]; rfl
    exact tracks_filled hs₂ hpass hscope hglobal hpass₁ hid opens (.trans hcourse (.aside ..))

/-- Parameters are read in the same way wherever they are read. -/
theorem opens_iff {s₁ : State} {all : List Parameter} {token : Nat} (hpos : s.pos = token + 1)
    (hrun : parameters s = .ok all s₁) :
    Opens s.tokens token ↔ s₁.tokens[s₁.pos]?.map Token.kind = some .openBrace := by
  have reads : Respects .any 0 parameters := inferInstance
  rw [(reads.ok (Nat.zero_le _) hrun).tokens]
  constructor
  · rintro ⟨t, t₁, all', htokens, hpos', hrun', hkind⟩
    obtain ⟨s', hs', hend, -, -⟩ :=
      Blind.run (x := parameters) (s := s) htokens (hpos'.trans hpos.symm) hrun'
    cases hrun.symm.trans hs'
    rw [← hend]
    exact hkind
  · exact fun hkind => ⟨s, s₁, all, rfl, hpos, hrun, hkind⟩

theorem tracks_functionDeclaration (hmethod : m.flags.method = false) (returnType : ValueType)
    (name : Token) {index : Nat} (hinside : Inside o.table f s) (hpos : s.pos = index + 1) :
    Tracks o s (functionDeclaration inner m returnType name index s) := by
  unfold functionDeclaration
  have reads : Charted o f parameters := inferInstance
  refine reads.tracks_bind inferInstance hinside fun all s₁ hrun hinside₁ => ?_
  -- Whether a body follows can be told from the tokens alone.
  have hopens := opens_iff hpos hrun
  rw [← (reads.respects.ok (Nat.zero_le _) hrun).tokens] at hopens
  let h : Head := ⟨m, returnType, name.text, index, all⟩
  rcases s₁.pass_cases with hpass | hpass
  -- The first walk makes the function, unless something is wrong with it.
  · rcases declareFunction_cases h hmethod hpass hinside₁.scope with
        admits | hdoomed | ⟨e, s₂, herror, hlog⟩
    · have hf : f = globalScope := hinside₁.function.symm.trans (checkFunction_eq_ok admits.checked)
      subst hf
      have hmade := declareFunction_of_declare hpass admits
      have hall := introduce_of_declare (h := h) hpass
      have makes : Respects .any 0 (declareFunction m returnType name.text index all) :=
        inferInstance
      have each : Respects .any 0 (declareParameters s₁.table.size all) := inferInstance
      have hinside₂ := (hinside₁.keeps (makes.ok (Nat.zero_le _) hmade)).keeps
        (each.ok (Nat.zero_le _) hall)
      rw [bind_of_ok hmade, bind_of_ok hall]
      exact tracks_introduced hinside₂ hinside₁.size hpass admits hopens.1
    · exact .of_doomed (Doomed.bind hdoomed)
    · rw [bind_of_error herror]
      exact .of_errors hlog
  -- The second walk finds it.
  · rcases declareFunction_of_emit h hpass with ⟨d, hfound⟩ | habandoned | hdoomed
    · rw [bind_of_ok hfound]
      exact tracks_recalled (h := h) hinside₁ hpass hopens.2
    · rw [bind_of_error habandoned]
      exact .of_course (.refl s₁)
    · exact .of_doomed (Doomed.bind hdoomed)

/-- A variable or a function. -/
instance : Charted o f (declaration inner) where
  respects := inferInstance
  run s hinside := by
    have reads : Charted o f modifiers := inferInstance
    have types : Charted o f typeSpecifier := inferInstance
    have places : Charted o f position := inferInstance
    have names : Charted o f expectIdentifier := inferInstance
    have looks : Charted o f (check .openParen) := inferInstance
    unfold declaration
    refine reads.tracks_bind inferInstance hinside fun m s₁ hm hinside => ?_
    refine types.tracks_bind inferInstance hinside fun type s₂ _ hinside => ?_
    refine places.tracks_bind inferInstance hinside fun index s₃ hindex hinside => ?_
    refine names.tracks_bind inferInstance hinside fun name s₄ hname hinside => ?_
    refine looks.tracks_bind inferInstance hinside fun isFunction s₅ hlook hinside => ?_
    cases hindex
    obtain ⟨-, -, rfl⟩ := expect_eq_ok hname
    cases hlook
    -- A parenthesis behind the name makes it a function.
    split
    · exact tracks_functionDeclaration (modifiers_method hm) type name hinside rfl
    · exact Charted.run _ hinside

end Declarations

/-! ### States -/

theorem checkDefault_eq_ok {isClaimed : Bool} {current : Option Nat} {what : String} {index : Nat}
    (h : checkDefault isClaimed current what index s = .ok u s') :
    s' = s ∧ (isClaimed = true → current = none) := by
  unfold checkDefault at h
  split at h
  · obtain ⟨x, s₁, -, h⟩ := bind_eq_ok.1 h
    exact absurd h (Never.ne_ok _ _ _)
  · next hnone =>
    cases h
    refine ⟨rfl, fun hclaimed => ?_⟩
    cases current with
    | none => rfl
    | some previous => exact absurd rfl (hnone previous hclaimed)

theorem atNamespaceLevel_eq_ok {isLevel : Bool} (h : atNamespaceLevel s = .ok isLevel s') :
    s' = s ∧ (isLevel = true → s.table.IsLevel s.scope) := by
  unfold atNamespaceLevel at h
  rw [view_bind] at h
  obtain ⟨x, s₁, hsymbol, hrest⟩ := bind_eq_ok.1 h
  obtain ⟨isInner, s₂, hinner, hlast⟩ := bind_eq_ok.1 hrest
  obtain ⟨rfl, hx⟩ := symbol_eq_ok hsymbol
  cases hinner
  cases hlast
  refine ⟨rfl, fun hlevel => ?_⟩
  rw [Bool.and_eq_true, Bool.or_eq_true, beq_iff_eq] at hlevel
  rcases hlevel.2 with hglobal | hspace
  · exact .inl hglobal
  · refine .inr (Table.kind?_eq_some.2 ⟨x, hx, ?_⟩)
    cases hk : x.kind with
    | space => rfl
    | _ =>
      rw [hk] at hspace
      cases hspace

theorem inState_eq_ok {isState : Bool} (h : inState s = .ok isState s') :
    s' = s ∧ (isState = true → s.table.IsState s.scope) := by
  unfold inState at h
  rw [view_bind] at h
  obtain ⟨x, s₁, hsymbol, hrest⟩ := bind_eq_ok.1 h
  obtain ⟨rfl, hx⟩ := symbol_eq_ok hsymbol
  cases hrest
  refine ⟨rfl, fun hstate => ?_⟩
  cases hk : x.kind with
  | state engine editor => exact ⟨engine, editor, Table.kind?_eq_some.2 ⟨x, hx, hk⟩⟩
  | _ =>
    rw [hk] at hstate
    cases hstate

/-- A state stands at the level of namespaces, has a name of its own and is a default only
    where there is none yet. -/
theorem checkState_eq_ok {name : String} {index : Nat}
    (h : checkState engine editor name index s = .ok u s') :
    s.table.IsLevel s.scope ∧ s.table.find? s.scope name (·.kind.isState) = none ∧
      (engine = true → s.engineState = none) ∧ (editor = true → s.editorState = none) := by
  unfold checkState at h
  obtain ⟨isLevel, s₁, hlevel, hrest⟩ := bind_eq_ok.1 h
  obtain ⟨rfl, hscope⟩ := atNamespaceLevel_eq_ok hlevel
  dsimp only at hrest
  split at hrest
  · exact absurd hrest (Never.ne_ok _ _ _)
  · next hthere =>
    rw [view_bind] at hrest
    obtain ⟨found, s₂, hfind, hdefaults⟩ := bind_eq_ok.1 hrest
    obtain ⟨rfl, rfl⟩ := findChild_eq_ok hfind
    split at hdefaults
    · exact absurd hdefaults (Never.ne_ok _ _ _)
    · next hfree =>
      rw [view_bind] at hdefaults
      obtain ⟨_, s₂, hfirst, hsecond⟩ := bind_eq_ok.1 hdefaults
      obtain ⟨rfl, hengine⟩ := checkDefault_eq_ok hfirst
      rw [view_bind] at hsecond
      obtain ⟨-, heditor⟩ := checkDefault_eq_ok hsecond
      exact ⟨hscope (by simpa using hthere), by simpa using hfree, hengine, heditor⟩

theorem creates_state {name : String} {index : Nat} (hpass : s.pass = .declare)
    (houter : s.scope ≠ memberScope) (hcheck : checkState engine editor name index s = .ok () s) :
    Creates T index .state (do
      let id ← addSymbol s.scope name (.state engine editor)
      introduceState engine editor id
      return id) s := by
  obtain ⟨hlevel, hnew, hengine, heditor⟩ := checkState_eq_ok hcheck
  have new : Declares s .state s.scope name (.state engine editor) _ :=
    .state hlevel hnew hengine heditor
  unfold Creates
  rcases addSymbol_cases s.scope name (.state engine editor) s with ⟨hlt, hadd⟩ | hadd
  · rw [bind_of_ok hadd]
    have hsize : s.table.size < (s.table.add (some s.scope) name
        (.state engine editor)).size := by simp
    unfold introduceState
    rw [bind_assoc, bind_of_ok (attachMetadata_eq hsize)]
    refine .inl ⟨_, rfl, ?_⟩
    exact .trans (.move (.declare index hpass hlt houter new)) (.move (.annotate hsize))
  · rw [bind_of_error hadd]
    exact .inr ⟨_, rfl⟩

instance (name : String) (index : Nat) : Charted o f (declareState engine editor name index) where
  respects := inferInstance
  run s hinside := by
    unfold declareState
    refine .checked fun hcheck => ?_
    rw [view_bind]
    exact tracks_keyed (fun hpass => creates_state hpass hinside.scope (hcheck hpass)) nofun

theorem owned_of_annotated {name : String} {kind : SymbolKind} (h : (addSymbol scope name kind >>=
      fun id => attachMetadata id >>= fun _ => (pure id : Walk Nat)) s = .ok id s')
    (hgrows : s'.table.Grows T) : T.scope? id = some scope := by
  obtain ⟨id, s₁, hadd, hrest⟩ := bind_eq_ok.1 h
  obtain ⟨_, s₂, hattach, hrest⟩ := bind_eq_ok.1 hrest
  cases hrest
  have attaches : Respects .any 0 (attachMetadata id) := inferInstance
  exact owned_of_addSymbol hadd ((attaches.ok (Nat.zero_le _) hattach).table.trans hgrows)

theorem kind_of_annotated {name : String} {kind : SymbolKind} (h : (addSymbol scope name kind >>=
      fun id => attachMetadata id >>= fun _ => (pure id : Walk Nat)) s = .ok id s')
    (hgrows : s'.table.Grows T) : ∃ kind', T.kind? id = some kind' ∧ kind.Grows kind' := by
  obtain ⟨id, s₁, hadd, hrest⟩ := bind_eq_ok.1 h
  obtain ⟨_, s₂, hattach, hrest⟩ := bind_eq_ok.1 hrest
  cases hrest
  have attaches : Respects .any 0 (attachMetadata id) := inferInstance
  obtain ⟨-, rfl, rfl⟩ := addSymbol_eq_ok hadd
  refine ((attaches.ok (Nat.zero_le _) hattach).table.trans hgrows).kind? ?_
  rw [Table.kind?_add, if_pos rfl]

theorem gives_outer {index : Nat} {create : Walk Nat}
    (h : ∀ s id s₁, create s = .ok id s₁ → s₁.table.Grows o.table → o.table.scope? id ≠ none) :
    Gives o f (keyed index role create) (· ≠ memberScope) :=
  gives_keyed (fun s id s₁ hcreate hgrows => Prospect.ne_member (h s id s₁ hcreate hgrows))
    fun _ hsound _ _ => Prospect.ne_member hsound.owned

theorem gives_declareState (engine editor : Bool) (name : String) (index : Nat) :
    Gives o f (declareState engine editor name index) (· ≠ memberScope) := by
  unfold declareState
  refine .checked fun s id s' hinside hrun hheads => ?_
  rw [view_bind] at hrun
  refine gives_outer (fun s₁ id s₂ hcreate hgrows => ?_) s id s' hinside hrun hheads
  obtain ⟨id, s₃, hadd, hrest⟩ := bind_eq_ok.1 hcreate
  obtain ⟨_, s₄, hintroduce, hrest⟩ := bind_eq_ok.1 hrest
  cases hrest
  have introduces : Respects .any 0 (introduceState engine editor id) := inferInstance
  have hscope := owned_of_addSymbol hadd
    ((introduces.ok (Nat.zero_le _) hintroduce).table.trans hgrows)
  rw [hscope]
  exact nofun

instance [Charted o f inner] : Charted o f (stateDeclaration inner) := by
  have any : Respects .any 0 inner := Charted.respects o f
  unfold stateDeclaration
  refine .seq fun _ => .seq fun isDefault => .seq fun index =>
    .seq fun name => ?_
  refine .bind_gives inferInstance (gives_declareState _ _ name.text index) fun id hid => ?_
  have contents := charted_inScope (o := o) (f := f) (blockContents inner) hid
  infer_instance

/-! ### Enumerations -/

theorem checkEnumeration_eq_ok {name : String} {index : Nat}
    (h : checkEnumeration name index s = .ok u s') :
    (s.table.IsLevel s.scope ∨ s.table.IsState s.scope) ∧
      s.table.find? s.scope name isExclusive = none := by
  unfold checkEnumeration at h
  rw [view_bind] at h
  obtain ⟨isLevel, s₁, hlevel, h₁⟩ := bind_eq_ok.1 h
  obtain ⟨rfl, hatLevel⟩ := atNamespaceLevel_eq_ok hlevel
  obtain ⟨isState, s₂, hstate, h₂⟩ := bind_eq_ok.1 h₁
  obtain ⟨rfl, hinState⟩ := inState_eq_ok hstate
  dsimp only at h₂
  split at h₂
  · exact absurd h₂ (Never.ne_ok _ _ _)
  · next hthere =>
    have hscope : s₂.table.IsLevel s₂.scope ∨ s₂.table.IsState s₂.scope := by
      cases isLevel with
      | true => exact .inl (hatLevel rfl)
      | false => exact .inr (hinState (by simpa using hthere))
    obtain ⟨found, s₃, hfind, h₃⟩ := bind_eq_ok.1 h₂
    obtain ⟨rfl, rfl⟩ := findChild_eq_ok hfind
    split at h₃
    · exact absurd h₃ (Never.ne_ok _ _ _)
    · next hfree => exact ⟨hscope, by simpa using hfree⟩

instance (name : String) (index : Nat) : Charted o f (declareEnumeration name index) where
  respects := inferInstance
  run s hinside := by
    unfold declareEnumeration
    refine .checked fun hcheck => ?_
    rw [view_bind]
    refine tracks_keyed (fun hpass => ?_) nofun
    obtain ⟨hlevel, hnew⟩ := checkEnumeration_eq_ok (hcheck hpass)
    exact creates_annotated hpass hinside.scope (.enumeration hlevel hnew) rfl

theorem gives_declareEnumeration (name : String) (index : Nat) :
    Gives o f (declareEnumeration name index) o.table.IsEnumeration := by
  unfold declareEnumeration
  refine .checked fun s id s' hinside hrun hheads => ?_
  rw [view_bind] at hrun
  refine gives_keyed (fun s₁ id s₂ hcreate hgrows => ?_)
    (fun d hsound hd _ => hsound.enumeration hd)
    s id s' hinside hrun hheads
  obtain ⟨kind, hkind, g⟩ := kind_of_annotated hcreate hgrows
  rwa [g.eq_enumeration_iff.2 rfl] at hkind

theorem Prospect.ne_member_of_isEnumeration (h : o.table.IsEnumeration id) : id ≠ memberScope := by
  rintro rfl
  cases o.member.symm.trans h

theorem checkMember_eq_ok {name : String} {index : Nat}
    (h : checkMember enumeration name index s = .ok u s') :
    s.table.find? enumeration name isVariable = none := by
  unfold checkMember at h
  obtain ⟨found, s₁, hfind, h₁⟩ := bind_eq_ok.1 h
  obtain ⟨rfl, rfl⟩ := findChild_eq_ok hfind
  split at h₁
  · exact absurd h₁ (Never.ne_ok _ _ _)
  · next hfree => simpa using hfree

theorem creates_member {name : String} {index : Nat} (hpass : s.pass = .declare)
    (henumeration : o.table.IsEnumeration enumeration) (hgrows : s.table.Grows o.table)
    (hcheck : checkMember enumeration name index s = .ok () s) :
    Creates T index .member (do
      let place ← allocateMemory
      addSymbol enumeration name (.var
        { kind := .constant, type := .int, isConstant := true, storage := .memory place })) s := by
  let v : Variable :=
    { kind := .constant, type := .int, isConstant := true, storage := .memory s.memorySize }
  let s₁ : State := { s with memorySize := s.memorySize + 1 }
  show (∃ s₂, addSymbol enumeration name (.var v) s₁ = .ok s.table.size s₂ ∧ _) ∨
    ∃ s₂, addSymbol enumeration name (.var v) s₁ = .error .broken s₂
  rcases addSymbol_cases enumeration name (.var v) s₁ with ⟨hlt, hadd⟩ | hadd
  · have new : Declares s .member enumeration name (.var v) s₁ :=
      .memory (.inr ⟨rfl, hgrows.isEnumeration_of_lt henumeration hlt, checkMember_eq_ok hcheck⟩)
        rfl rfl
    exact .inl ⟨_, hadd, .move (.declare index hpass hlt
      (Prospect.ne_member_of_isEnumeration henumeration) new)⟩
  · exact .inr ⟨_, hadd⟩

theorem charted_declareMember (henumeration : o.table.IsEnumeration enumeration) (name : String)
    (index : Nat) : Charted o f (declareMember enumeration name index) where
  respects := inferInstance
  run s hinside := by
    refine .of_heads fun hstart => .checked fun hcheck => tracks_keyed (fun hpass => ?_) nofun
    exact creates_member hpass henumeration hstart.table (hcheck hpass)

theorem gives_declareMember (enumeration : Nat) (name : String) (index : Nat) :
    Gives o f (declareMember enumeration name index) o.table.IsVar := by
  unfold declareMember
  refine .checked (gives_keyed (fun s id s₁ hcreate hgrows => ?_) fun d hsound hd _ => ?_)
  · exact isVar_of_addSymbol hcreate hgrows
  · apply hsound.isVar
    rw [hd]
    rfl

theorem charted_enumerationValue (hid : o.table.IsVar id) : Charted o f (enumerationValue id) := by
  have computed := paced_initializer hid
  unfold enumerationValue
  refine .seq fun start => .seq fun literal => ?_
  split <;> infer_instance

/-- A member without a value of its own gets the literal of its bit. -/
theorem charted_automatic (id : Nat) (t : Token) :
    Charted o f (declaring (modifyVariable id fun v => { v with literal := some t })) where
  respects := inferInstance
  run s _ := by
    rcases s.pass_cases with hpass | hpass
    · rw [declaring_of_declare hpass]
      exact .of_course (course_literal id t hpass)
    · rw [declaring_of_emit hpass]
      exact .of_course (.refl s)

theorem charted_enumerationMember (henumeration : o.table.IsEnumeration enumeration)
    (ordinal : Nat) : Charted o f (enumerationMember enumeration ordinal) := by
  unfold enumerationMember
  refine .seq fun index => .seq fun name => ?_
  refine .bind_gives (charted_declareMember henumeration name.text index)
    (gives_declareMember enumeration name.text index) fun id hid => ?_
  have computed := charted_enumerationValue (f := f) hid
  have automatic := charted_automatic (o := o) (f := f) id (automaticValue name ordinal)
  infer_instance

theorem charted_enumerationMembers (henumeration : o.table.IsEnumeration enumeration) :
    Charted o f (enumerationMembers enumeration) := by
  have each := charted_enumerationMember (o := o) (f := f) henumeration
  unfold enumerationMembers
  infer_instance

instance : Charted o f enumerationDeclaration := by
  unfold enumerationDeclaration
  refine .seq fun _ => .seq fun index => .seq fun name => ?_
  refine .bind_gives inferInstance (gives_declareEnumeration name.text index) fun id hid => ?_
  have members := charted_enumerationMembers (o := o) (f := f) hid
  have contents := charted_inScope (o := o) (f := f) (enumerationMembers id)
    (Prospect.ne_member_of_isEnumeration hid)
  infer_instance

/-! ### Namespaces and metadata -/

/-- A namespace that is not there yet is made. -/
theorem tracks_newSpace (houter : scope ≠ memberScope) {name : String}
    (hlevel : scope < s.table.size → s.table.IsLevel scope)
    (hnew : s.table.find? scope name (fun x => isVariable x || x.kind.isContainer) = none) :
    Tracks o s ((addSymbol scope name .space >>= fun id => attachMetadata id >>= fun _ =>
      (pure id : Walk Nat)) s) := by
  rcases addSymbol_cases scope name .space s with ⟨hlt, hadd⟩ | hadd
  · have hsize : s.table.size < (s.table.add (some scope) name .space).size := by simp
    rw [bind_of_ok hadd, bind_of_ok (attachMetadata_eq hsize)]
    exact .of_course (.trans (.move (.space hlt houter (hlevel hlt) hnew))
      (.move (.annotate hsize)))
  · rw [bind_of_error hadd]
    exact .of_doomed (.inr rfl)

/-- A place for namespaces in the end. -/
structure Prospect.Admits (o : Prospect) (scope : Nat) : Prop where
  outer : scope ≠ memberScope
  level : o.table.IsLevel scope

theorem charted_namespaceWithin (hscope : o.Admits scope) (name : Token) (index : Nat) :
    Charted o f (namespaceWithin scope name index) where
  respects := inferInstance
  run s hinside := by
    refine .of_heads fun hstart => ?_
    let filter : Symbol → Bool := fun x => isVariable x || x.kind.isContainer
    have finds : Charted o f (findChild scope name.text filter) := inferInstance
    have rest : ∀ found, Respects .any 0 (match found with
        | some id => do
          if (← symbol id).kind.isSpace then return id
          else
            reject index .duplicateSymbol
              s!"'{name.text}' is already declared and is not a namespace"
        | none => do
          let id ← addSymbol scope name.text .space
          attachMetadata id
          return id : Walk Nat) := by
      intro found
      cases found <;> infer_instance
    unfold namespaceWithin
    refine finds.tracks_bind rest hinside fun found s₁ hfind hinside₁ => ?_
    obtain ⟨rfl, rfl⟩ := findChild_eq_ok hfind
    -- A namespace that is there already is entered again.
    cases hfound : s₁.table.find? scope name.text filter with
    | some id => exact Charted.run s₁ hinside₁
    | none =>
      exact tracks_newSpace hscope.outer (hstart.table.isLevel_of_lt hscope.level) hfound

theorem gives_namespaceWithin (name : Token) (index : Nat) :
    Gives o f (namespaceWithin scope name index) o.Admits := by
  intro s id s' hinside hrun hheads
  unfold namespaceWithin at hrun
  obtain ⟨found, s₁, hfind, hrest⟩ := bind_eq_ok.1 hrun
  obtain ⟨rfl, hfound⟩ := findChild_eq_ok hfind
  cases found with
  | some child =>
    obtain ⟨x, s₂, hsymbol, hchild⟩ := bind_eq_ok.1 hrest
    obtain ⟨rfl, hx⟩ := symbol_eq_ok hsymbol
    split at hchild
    · next hspace =>
      cases hchild
      obtain ⟨hmem, -⟩ := Table.find?_eq_some hfound.symm
      refine ⟨Prospect.ne_member (o := o) ?_,
        hheads.table.isLevel (.inr (Table.kind?_eq_some.2 ⟨x, hx, ?_⟩))⟩
      · -- A child has a scope.
        rw [hheads.table.scope? (Table.get?_lt hx), hinside.wellFormed.owned scope id hmem]
        exact nofun
      · cases hk : x.kind with
        | space => rfl
        | _ =>
          rw [hk] at hspace
          cases hspace
    · exact absurd hchild (Never.ne_ok _ _ _)
  -- A new one is a child of its scope.
  | none =>
    obtain ⟨kind, hkind, g⟩ := kind_of_annotated hrest hheads.table
    rw [g.eq_space_iff.2 rfl] at hkind
    refine ⟨Prospect.ne_member (o := o) ?_, .inr hkind⟩
    rw [owned_of_annotated hrest hheads.table]
    exact nofun

theorem charted_namespacesWithin (path : List Token) (index : Nat) {scope : Nat}
    (hscope : o.Admits scope) : Charted o f
      (path.foldlM (fun scope name => namespaceWithin scope name index) scope : Walk Nat) := by
  induction path generalizing scope with
  | nil => exact inferInstanceAs (Charted o f (pure scope))
  | cons name path ih =>
    rw [List.foldlM_cons]
    exact .bind_gives (charted_namespaceWithin hscope name index) (gives_namespaceWithin name index)
      (fun _ hid => ih hid) fun id => .foldlM (fun _ _ => inferInstance) id

theorem gives_namespacesWithin {q : Nat → Prop} (hq : ∀ id, o.Admits id → q id) (path : List Token)
    (index : Nat) {scope : Nat} (hscope : q scope) : Gives o f
      (path.foldlM (fun scope name => namespaceWithin scope name index) scope : Walk Nat) q := by
  induction path generalizing scope with
  | nil => exact .pure hscope
  | cons name path ih =>
    rw [List.foldlM_cons]
    exact .bind (gives_namespaceWithin name index) (fun id hid => ih (hq id hid)) inferInstance
      fun id => .foldlM (fun _ _ => inferInstance) id

theorem requireNamespaceLevel_eq_ok {index : Nat} (h : requireNamespaceLevel index s = .ok u s') :
    s' = s ∧ s.table.IsLevel s.scope := by
  unfold requireNamespaceLevel at h
  obtain ⟨isLevel, s₁, hlevel, hrest⟩ := bind_eq_ok.1 h
  obtain ⟨rfl, hscope⟩ := atNamespaceLevel_eq_ok hlevel
  split at hrest
  · exact absurd hrest (Never.ne_ok _ _ _)
  · next hthere =>
    cases hrest
    exact ⟨rfl, hscope (by simpa using hthere)⟩

instance (index : Nat) : Paced T (requireNamespaceLevel index) := by
  unfold requireNamespaceLevel
  infer_instance

/-- A walk that relies on the scope where namespaces may be declared. -/
theorem charted_leveled {x : Walk α} {k : α → Nat → Walk β} (hx : Charted o f x)
    (hr : ∀ a scope, Respects .any 0 (k a scope))
    (hk : ∀ a scope, o.Admits scope → Charted o f (k a scope)) (index : Nat) :
    Charted o f (requireNamespaceLevel index >>= fun _ => x >>= fun a =>
      view (·.scope) >>= fun scope => k a scope) where
  respects := by
    have hx' := hx.respects
    infer_instance
  run s hinside := by
    have hx' := hx.respects
    have required : Charted o f (requireNamespaceLevel index) := inferInstance
    refine required.tracks_bind inferInstance hinside fun _ s₁ hrequired hinside₁ => ?_
    obtain ⟨rfl, hlevel⟩ := requireNamespaceLevel_eq_ok hrequired
    refine .of_heads fun hstart =>
      hx.tracks_bind inferInstance hinside₁ fun a s₂ hrun hinside₂ => ?_
    rw [view_bind]
    -- Nothing in between changes the scope.
    have hscope : s₂.scope = s₁.scope := (hx'.ok (Nat.zero_le _) hrun).scope
    exact (hk a s₂.scope ⟨hinside₂.scope, hscope ▸ hstart.table.isLevel hlevel⟩).run s₂ hinside₂

instance [Charted o f inner] : Charted o f (namespaceDeclaration inner) := by
  have any : Respects .any 0 inner := Charted.respects o f
  unfold namespaceDeclaration namespaceOf
  refine .seq fun index => .seq fun _ => ?_
  simp only [bind_assoc]
  refine charted_leveled inferInstance (fun path scope => ?_) (fun path scope hscope => ?_) index
  · have found : Respects .any 0
        (path.foldlM (fun scope name => namespaceWithin scope name index) scope : Walk Nat) :=
      .foldlM (fun _ _ => inferInstance) scope
    infer_instance
  · refine .bind_gives (charted_namespacesWithin path index hscope)
      (gives_namespacesWithin (fun _ hid => hid) path index hscope) fun id hid => ?_
    have contents := charted_inScope (o := o) (f := f) (blockContents inner) hid.outer
    infer_instance

instance : Paced T metadataBlock := by
  have kept : ∀ entries, Paced T
      (declaring (change fun s => { s with metadata := s.metadata ++ entries })) := by
    intro entries
    unfold declaring
    infer_instance
  unfold metadataBlock requireNoFunction
  infer_instance

end StateScript.Walk
