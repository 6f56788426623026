import StateScript.Proofs.Walk.Expressions

/-! # What statements leave alone

  Statements and declarations are `loud`, but for those that refuse a declaration in
  both walks: the first walk reports that on behalf of both. Whatever a statement enters,
  it leaves again.
-/

namespace StateScript.Walk

variable {d : Declared} {m : Modifiers} {id stop : Nat} {s s' s₁ : State} {inner x : Walk Unit}

set_option synthInstance.maxSize 1000000000

variable {α β : Type} {g : Grade} {b : Nat}

/-! ### Statements without parts -/

section Plain

variable [g.Within .plain]

instance (isParenthesised : Bool) : Respects g b (depthNumber isParenthesised) := by
  unfold depthNumber
  refine .seq fun i => .seq fun t => ?_
  split
  · split <;> infer_instance
  · infer_instance

instance : Respects g b continueStatement := by
  unfold continueStatement
  refine .seq fun _ => .seq fun index => .seq fun _ => ?_
  refine .seq fun depth => .seq fun _ => ?_
  refine .seq fun targets => ?_
  split <;> infer_instance

instance : Respects g b namespacePath := by
  unfold namespacePath
  infer_instance

end Plain

/-! ### Entering and leaving -/

/-- What a statement enters and leaves. -/
def State.control (s : State) : Nat × Nat × List LoopFrame × Regions :=
  (s.function, s.scope, s.loops, s.regions)

theorem Keeps.control {e : Option Stop} (h : Keeps g b e s s') : s'.control = s.control := by
  unfold State.control
  rw [h.function, h.scope, h.loops, h.regions]

/-- Two states that differ in nothing but what a statement enters and leaves. -/
structure Apart (s s' : State) : Prop where
  tokens : s'.tokens = s.tokens
  pass : s'.pass = s.pass
  pos : s'.pos = s.pos
  log : s'.log = s.log
  table : s'.table = s.table
  declared : s'.declared = s.declared
  recalled : s'.recalled = s.recalled
  rejected : s'.rejected = s.rejected
  history : s'.history = s.history

/-- A run between entering and leaving. -/
theorem Keeps.enclosed [hg : g.Within .idle] {e : Option Stop} {s s₀ s₁ s₂ : State}
    (h : Keeps g b e s₀ s₁)
    (enter : Apart s s₀) (leave : Apart s₁ s₂) (hcontrol : s₂.control = s.control)
    (hplain : 2 ≤ g.rank → s₀.function = s.function) : Keeps g b e s s₂ := by
  simp only [State.control, Prod.mk.injEq] at hcontrol
  obtain ⟨hfunction, hscope, hloops, hregions⟩ := hcontrol
  -- Entering and leaving change only what the two ends agree on.
  exact
    { tokens := leave.tokens.trans (h.tokens.trans enter.tokens)
      pass := leave.pass.trans (h.pass.trans enter.pass)
      function := hfunction
      scope := hscope
      loops := hloops
      regions := hregions
      onward := fun he => leave.pos ▸ h.onward he
      log := by
        rw [leave.log, ← enter.log]
        exact h.log
      fatal := by
        rw [leave.log, ← enter.log]
        exact h.fatal
      proper := by
        rw [leave.log, ← enter.log]
        exact h.proper
      code := by
        rw [leave.table, ← enter.table]
        exact h.code
      history := by
        rw [leave.history, leave.table, ← enter.history, ← enter.table]
        exact h.history
      faithful := by
        unfold State.Faithful
        rw [leave.log, leave.rejected, ← enter.log, ← enter.rejected]
        exact h.faithful
      table := by
        rw [leave.table, ← enter.table]
        exact h.table
      wellFormed := by
        rw [leave.table, ← enter.table]
        exact h.wellFormed
      records := by
        rw [leave.declared, ← enter.declared]
        exact h.records
      targets := by
        rw [leave.declared, leave.table, ← enter.table]
        exact h.targets
      recalls := by
        rw [leave.recalled, ← enter.recalled, ← enter.declared, ← enter.pass]
        exact h.recalls
      emit := by
        rw [leave.declared, leave.rejected, ← enter.declared, ← enter.rejected, ← enter.pass]
        exact h.emit
      declare := by
        rw [leave.table, ← enter.table, ← enter.pass]
        exact h.declare
      loud := by
        unfold State.Faithful
        rw [leave.log, ← enter.log, ← enter.rejected, ← enter.pass]
        exact h.loud
      internal := by
        rw [leave.log, ← enter.log, ← enter.pass]
        exact h.internal
      plain := by
        intro hg
        rw [leave.declared, leave.recalled, leave.table, ← enter.declared, ← enter.recalled,
          ← enter.table, ← hplain hg]
        exact h.plain hg
      idle := by
        rw [leave.table, ← enter.table]
        exact h.idle
      still := fun h => absurd (Nat.le_trans h hg.le) (by decide) }

/-- How a protected run ends. -/
theorem protect_eq (restore : State → State) (x : Walk α) (s : State) :
    ending (protect restore x s) = ending (x s) ∧
      final (protect restore x s) = restore (final (x s)) := by
  unfold protect
  cases x s with
  | ok a s₁ => exact ⟨rfl, rfl⟩
  | error e s₁ => exact ⟨rfl, rfl⟩

theorem protect_eq_ok {restore : State → State} {x : Walk α} {a : α} :
    protect restore x s = .ok a s' ↔ ∃ s₁, x s = .ok a s₁ ∧ restore s₁ = s' := by
  unfold protect
  cases x s <;> simp [and_assoc]

theorem protect_eq_error {restore : State → State} {x : Walk α} {e : Stop} :
    protect restore x s = .error e s' ↔ ∃ s₁, x s = .error e s₁ ∧ restore s₁ = s' := by
  unfold protect
  cases x s <;> simp [and_assoc]

/-- Entering and leaving set only where the walk stands. -/
theorem Apart.places (s : State) (function scope : Nat) (loops : List LoopFrame)
    (blocks : List (List Nat)) (regions : Regions) (localCount : Nat) :
    Apart s { s with function, scope, loops, blocks, regions, localCount } :=
  ⟨rfl, rfl, rfl, rfl, rfl, rfl, rfl, rfl, rfl⟩

/-- A rule that runs another between entering and leaving. -/
structure Enclosure (w x : Walk α) where
  enter : State → State
  leave : State → State → State
  eq s : w s = protect (leave s) x (enter s)
  entered s : Apart s (enter s)
  left s s₁ : Apart s₁ (leave s s₁)
  back s s₁ : s₁.control = (enter s).control → (leave s s₁).control = s.control
  enter_under s flags : enter (s.under flags) = (enter s).under flags
  leave_under s s₁ flags : leave (s.under flags) (s₁.under flags) = (leave s s₁).under flags

namespace Enclosure

variable {w x : Walk α} (e : Enclosure w x)

theorem ending_eq (s : State) : ending (w s) = ending (x (e.enter s)) := by
  rw [e.eq, (protect_eq _ _ _).1]

theorem final_eq (s : State) : final (w s) = e.leave s (final (x (e.enter s))) := by
  rw [e.eq, (protect_eq _ _ _).2]

theorem eq_ok {a : α} : w s = .ok a s' ↔ ∃ s₁, x (e.enter s) = .ok a s₁ ∧ e.leave s s₁ = s' := by
  rw [e.eq, protect_eq_ok]

theorem eq_error {stop : Stop} :
    w s = .error stop s' ↔ ∃ s₁, x (e.enter s) = .error stop s₁ ∧ e.leave s s₁ = s' := by
  rw [e.eq, protect_eq_error]

def globalInitializer (id : Nat) : Enclosure (Walk.globalInitializer id) (initializer id) where
  enter s := { s with function := globalScope }
  leave s s₁ := { s₁ with function := s.function }
  eq _ := rfl
  entered _ := .places ..
  left _ _ := .places ..
  back s s₁ h := by simp_all [State.control]
  enter_under _ _ := rfl
  leave_under _ _ _ := rfl

def inScope (id : Nat) (x : Walk Unit) : Enclosure (Walk.inScope id x) x where
  enter s := { s with scope := id }
  leave s s₁ := { s₁ with scope := s.scope }
  eq _ := rfl
  entered _ := .places ..
  left _ _ := .places ..
  back s s₁ h := by simp_all [State.control]
  enter_under _ _ := rfl
  leave_under _ _ _ := rfl

def inBlock (x : Walk Unit) : Enclosure (Walk.inBlock x) x where
  enter s := { s with blocks := [] :: s.blocks }
  leave _ s₁ := { s₁ with blocks := s₁.blocks.tail }
  eq _ := rfl
  entered _ := .places ..
  left _ _ := .places ..
  back _ _ h := h
  enter_under _ _ := rfl
  leave_under _ _ _ := rfl

def inFunctionOf (id : Nat) (x : Walk Unit) :
    Enclosure (Walk.inFunctionOf id x) (Walk.inScope id (Walk.inBlock x)) where
  enter s := { s with function := id, localCount := 0 }
  leave s s₁ := { s₁ with function := s.function }
  eq _ := rfl
  entered _ := .places ..
  left _ _ := .places ..
  back s s₁ h := by simp_all [State.control]
  enter_under _ _ := rfl
  leave_under _ _ _ := rfl

def inLoop (breakTarget : Nat) (continueTarget counter : Option Nat) (x : Walk Unit) :
    Enclosure (Walk.inLoop breakTarget continueTarget counter x) x where
  enter s := { s with loops := ⟨breakTarget, continueTarget, counter, s.regions⟩ :: s.loops }
  leave _ s₁ := { s₁ with loops := s₁.loops.tail }
  eq _ := rfl
  entered _ := .places ..
  left _ _ := .places ..
  back s s₁ h := by simp_all [State.control]
  enter_under _ _ := rfl
  leave_under _ _ _ := rfl

def inRegion (e : Exclusion) (index : Nat) (x : Walk Unit) :
    Enclosure (Walk.inRegion e index x) x where
  enter s := { s with regions := e.set s.regions (some index) }
  leave s s₁ := { s₁ with regions := s.regions }
  eq _ := rfl
  entered _ := .places ..
  left _ _ := .places ..
  back s s₁ h := by simp_all [State.control]
  enter_under _ _ := rfl
  leave_under _ _ _ := rfl

end Enclosure

theorem Respects.enclosed [g.Within .idle] {w x : Walk α} (e : Enclosure w x) [hx : Respects g b x]
    (hplain : 2 ≤ g.rank → ∀ s, (e.enter s).function = s.function) : Respects g b w := by
  refine .of_parallel (fun s hpos => ?_) fun F G s hpos hs => ?_
  · rw [e.ending_eq, e.final_eq]
    have h := hx.run (e.enter s) ((e.entered s).pos ▸ hpos)
    exact h.enclosed (e.entered s) (e.left s _) (e.back s _ h.control) fun hg => hplain hg s
  · have hrun := hx.alike.run (e.enter s) ((e.entered s).pos ▸ hpos)
      (hs.of_tokens (e.entered s).tokens)
    have hlog : ∀ s, (final (w s)).log = (final (x (e.enter s))).log := fun s => by
      rw [e.final_eq]
      exact (e.left s _).log
    have hlogF := hlog (s.under F)
    have hlogG := hlog (s.under G)
    rw [e.enter_under] at hlogF hlogG
    generalize hF : x ((e.enter s).under F) = r at hrun hlogF
    generalize hG : x ((e.enter s).under G) = r' at hrun hlogG
    rw [← e.enter_under] at hF hG
    -- Both sides leave what they entered, however the walk inside ended.
    cases hrun with
    | ok a s₁ hs₁ =>
      rw [e.eq_ok.2 ⟨_, hF, e.leave_under s s₁ F⟩, e.eq_ok.2 ⟨_, hG, e.leave_under s s₁ G⟩]
      exact .ok a _ (hs₁.of_tokens (e.left s s₁).tokens)
    | error stop s₁ hs₁ =>
      rw [e.eq_error.2 ⟨_, hF, e.leave_under s s₁ F⟩, e.eq_error.2 ⟨_, hG, e.leave_under s s₁ G⟩]
      exact .error stop _ (hs₁.of_tokens (e.left s s₁).tokens)
    | first s₁ h =>
      rw [e.eq_error.2 ⟨_, hF, rfl⟩]
      exact .first _ (hlogG ▸ h)
    | second s₁ h =>
      rw [e.eq_error.2 ⟨_, hG, rfl⟩]
      exact .second _ (hlogF ▸ h)

section Enclosing

variable [g.Within .idle] (x : Walk Unit) [Respects g b x]

instance : Respects g b (inScope id x) := .enclosed (.inScope id x) fun _ _ => rfl

instance : Respects g b (inBlock x) := .enclosed (.inBlock x) fun _ _ => rfl

instance (breakTarget : Nat) (continueTarget counter : Option Nat) :
    Respects g b (inLoop breakTarget continueTarget counter x) :=
  .enclosed (.inLoop breakTarget continueTarget counter x) fun _ _ => rfl

instance (e : Exclusion) (index : Nat) : Respects g b (inRegion e index x) :=
  .enclosed (.inRegion e index x) fun _ _ => rfl

end Enclosing

/-! ### Blocks, conditions and loops -/

section Loud

variable [g.Within .loud]

instance (test : Option Nat) (next : Nat) : Respects g b (pendingTest test next) := by
  unfold pendingTest
  cases test <;> infer_instance

instance (start : Option Nat) : Respects g b (defaultJump start) := by
  unfold defaultJump
  cases start <;> infer_instance

instance (inner : Walk Unit) [Respects g b inner] : Respects g b (whileStatement inner) := by
  unfold whileStatement
  infer_instance

end Loud

/-! ### Frames -/

/-- Variables that get another place on the stack. -/
theorem Keeps.moved [g.Within .idle] (s : State) (hpos : b ≤ s.pos) (ids : List Nat)
    (f : Nat → Variable → Storage) (hf : ∀ id v, (f id v).isStack = v.storage.isStack) :
    Keeps g b none s { s with table := ids.foldl (fun t id =>
      t.modifyKind id (·.mapVariable fun v => { v with storage := f id v })) s.table } := by
  induction ids generalizing s with
  | nil =>
    refine Keeps.refl (e := none) ?_ hpos
    intro _ h
    cases h
  | cons id ids ih =>
    have first : Keeps g b none s { s with
        table := s.table.modifyKind id (·.mapVariable fun v => { v with storage := f id v }) } :=
      .mapVariable s hpos (fun _ => rfl) (hf id) fun _ _ => ⟨rfl, rfl⟩
    exact first.trans (ih _ hpos)

theorem Keeps.framed [g.Within .idle] (s : State) (hpos : b ≤ s.pos) (function locals : Nat) :
    Keeps g b none s { s with
      table := s.table.modifyKind function (·.mapFunction fun f =>
        { f with frameSize := locals }) } :=
  .mapFunction s hpos (fun _ _ => .ofFunction rfl rfl fun h => ⟨h, rfl⟩) (fun _ h => h) fun _ => rfl

theorem isStack_frameStorage (locals count place : Nat) (v : Variable) :
    (frameStorage locals count place v).isStack = v.storage.isStack := by
  unfold frameStorage
  cases v.kind <;> cases v.storage <;> rfl

/-- Frames are laid out by the first walk. -/
theorem Keeps.finished [g.Within .idle] (s : State) (hpos : b ≤ s.pos) (function : Nat) :
    Keeps g b none s { s with table := layFrame s.table function s.localCount } := by
  have hmoved := Keeps.moved (g := g) s hpos (s.table.children function) (fun id v => frameStorage
    s.localCount ((s.table.children function).filter (isParameter s.table)).length
    (((s.table.children function).filter (isParameter s.table)).idxOf id) v)
    fun _ _ => isStack_frameStorage ..
  have hframed := fun t => Keeps.framed (g := g) { s with table := t } hpos function s.localCount
  exact hmoved.trans (hframed _)

/-! ### Declarations -/

section Declared

variable [g.Within .loud]

instance (name : String) : Respects g b (isTaken name) := by
  unfold isTaken
  refine .seq fun isInner => ?_
  split
  · refine .seq fun function => .bind (.ensure fun _ _ => rfl) fun _ => ?_
    refine .bind (.view fun _ _ => rfl) fun inBlock => ?_
    exact .bind (.view fun _ _ => rfl) fun outermost => inferInstance
  · infer_instance

instance : Respects g b (globalInitializer id) :=
  have loud : Respects .loud b (globalInitializer id) :=
    .enclosed (.globalInitializer id) fun h => absurd h (by decide)
  loud.weaken

instance : Respects .adding b modifiers := by
  unfold modifiers
  refine .loop (fun m => .seq fun next => ?_) _
  split
  · infer_instance
  · split <;> infer_instance

/-! ### Functions -/

/-- What a list of items is made of, as seen from the end of an item or later. -/
theorem Listed.all {item : Walk α} {P : α → Nat → Prop} [hitem : ∀ b, Respects .any b item]
    (h : ∀ s a s₁, b ≤ s.pos → item s = .ok a s₁ → P a s₁.pos)
    (hmono : ∀ a m n, m ≤ n → P a m → P a n) {items : List α} (hlisted : Listed item s items s₁)
    (hpos : b ≤ s.pos) : s.pos ≤ s₁.pos ∧ ∀ a ∈ items, P a s₁.pos := by
  induction hlisted with
  | last ha hend =>
    have hle := le_pos_of_ok (Nat.le_refl _) ha
    have hle' := le_pos_of_ok (Nat.le_refl _) hend
    refine ⟨Nat.le_trans hle hle', fun x hx => ?_⟩
    rw [List.mem_singleton] at hx
    exact hx ▸ hmono _ _ _ hle' (h _ _ _ hpos ha)
  | more ha hcomma _ ih =>
    have hle := le_pos_of_ok (Nat.le_refl _) ha
    have hle' := le_pos_of_ok (Nat.le_refl _) hcomma
    obtain ⟨hle'', hall⟩ := ih (by omega)
    refine ⟨by omega, fun x hx => ?_⟩
    rcases List.mem_cons.1 hx with rfl | hx
    · exact hmono _ _ _ (Nat.le_trans hle' hle'') (h _ _ _ hpos ha)
    · exact hall x hx

/-- What a list of parameters is made of. -/
theorem parameters_all {P : Parameter → Nat → Prop}
    (h : ∀ s p s₁, b ≤ s.pos → parameter s = .ok p s₁ → P p s₁.pos)
    (hmono : ∀ p m n, m ≤ n → P p m → P p n) {all : List Parameter} (hpos : b ≤ s.pos)
    (hrun : parameters s = .ok all s₁) : ∀ p ∈ all, P p s₁.pos := by
  unfold parameters at hrun
  obtain ⟨_, s', hopen, hrun⟩ := bind_eq_ok.1 hrun
  obtain ⟨items, s'', hitems, hrun⟩ := bind_eq_ok.1 hrun
  obtain ⟨_, s₃, hclose, hrun⟩ := bind_eq_ok.1 hrun
  have hpos' := le_pos_of_ok hpos hopen
  have hle : s''.pos ≤ s₃.pos := le_pos_of_ok (Nat.le_refl _) hclose
  cases hrun
  unfold separatedUnless at hitems
  obtain ⟨isEmpty, s₂, hcheck, hitems⟩ := bind_eq_ok.1 hitems
  cases hcheck
  -- The list may be empty.
  split at hitems
  · cases hitems
    simp
  · intro p hp
    exact hmono _ _ _ hle (((listed_of_separated hitems).all h hmono hpos').2 p hp)

theorem parameters_index {all : List Parameter} (hpos : b ≤ s.pos)
    (hrun : parameters s = .ok all s₁) : ∀ p ∈ all, b ≤ p.index := by
  refine parameters_all (P := fun p _ => b ≤ p.index) (fun s p s₁ hpos hp => ?_)
    (fun _ _ _ _ h => h) hpos hrun
  unfold parameter at hp
  obtain ⟨type, s', htype, hp⟩ := bind_eq_ok.1 hp
  rw [position_bind] at hp
  obtain ⟨name, _, _, hp⟩ := bind_eq_ok.1 hp
  cases hp
  exact le_pos_of_ok hpos htype

theorem ordinary_parameterFault {all : List Parameter} {earlier : List String} {code : Code}
    {message : String} (h : parameterFault? earlier all = some (code, message)) :
    Ordinary code := by
  induction all generalizing earlier with
  | nil => cases h
  | cons p rest ih =>
    unfold parameterFault? at h
    dsimp only at h
    split at h
    · cases h
      infer_instance
    · split at h
      · cases h
        infer_instance
      · exact ih h

theorem ordinary_functionFault {returnType : ValueType} {name : String} {all : List Parameter}
    {isInner isState : Bool} {code : Code} {message : String}
    (h : functionFault? m returnType name all isInner isState = some (code, message)) :
    Ordinary code := by
  unfold functionFault? at h
  repeat' split at h
  all_goals first
    | exact ordinary_parameterFault h
    | cases h; infer_instance

instance (returnType : ValueType) (name : String) (index : Nat) (all : List Parameter) :
    Respects .adding b (checkFunction m returnType name index all) := by
  unfold checkFunction
  refine .seq fun inFunction => .seq fun inState => ?_
  split
  · next hfault =>
    have := ordinary_functionFault hfault
    infer_instance
  · infer_instance

/-- Functions are declared outside of functions only. -/
theorem checkFunction_eq_ok {returnType : ValueType} {name : String} {index : Nat}
    {all : List Parameter} (h : checkFunction m returnType name index all s = .ok () s₁) :
    s.function = globalScope := by
  unfold checkFunction inFunction at h
  rw [view_bind] at h
  obtain ⟨isState, s', -, h⟩ := bind_eq_ok.1 h
  apply Decidable.byContradiction
  intro hne
  -- A function inside of another is a fault.
  have hfault : ∃ fault, functionFault? m returnType name all (s.function != globalScope) isState =
      some fault := by
    unfold functionFault?
    rw [if_pos (by simpa using hne)]
    exact ⟨_, rfl⟩
  obtain ⟨fault, hfault⟩ := hfault
  rw [hfault] at h
  unfold reject at h
  obtain ⟨_, _, -, h⟩ := bind_eq_ok.1 h
  cases h

instance (all : List Parameter) (returnType : ValueType) (flags : FunctionFlags) (access : Access) :
    NewKind (.function
      { parameterCount := all.length, parameterTypes := all.map (·.type), returnType, flags,
        access }) := by
  refine ⟨rfl, rfl, by rintro _ ⟨⟩, ?_⟩
  rintro _ ⟨⟩
  simp

theorem Respects.declareParameters {all : List Parameter} (hindex : ∀ p ∈ all, b ≤ p.index)
    (function : Nat) : Respects g b (declareParameters function all) := by
  unfold Walk.declareParameters
  refine .forM fun x hx => ?_
  obtain ⟨-, -, h⟩ := List.mem_zipIdx hx
  have : From b x.1.index := ⟨hindex _ (h ▸ List.getElem_mem _)⟩
  infer_instance

instance (function : Nat) :
    Respects g b (view fun s => (s.table.children function).filterMap (unusedVariable? s)) :=
  .view fun _ _ => rfl

instance (function : Nat) : Respects g b (checkUnused function) := by
  unfold checkUnused
  have each : ∀ x : Nat × String, Respects g b (reportAt x.1 .unusedSymbol .warning
      s!"'{x.2}' is never read") := inferInstance
  infer_instance

/-- A frame is laid out, unless a variable of it is missing. -/
theorem finishFrame_cases (id : Nat) (s : State) :
    finishFrame id s = .ok () { s with table := layFrame s.table id s.localCount } ∨
      finishFrame id s = .error .broken s :=
  ensure_bind_cases _ (fun _ => view (·.localCount) >>= fun locals =>
    change fun s => { s with table := layFrame s.table id locals }) s

omit [g.Within .loud] in
instance [g.Within .idle] : Respects g b (finishFunction id) where
  run s hpos := by
    unfold finishFunction
    rcases s.pass_cases with hpass | hpass
    · rw [emitting_bind_declare hpass, if_neg Bool.false_ne_true]
      rcases finishFrame_cases id s with hrun | hrun <;> rw [hrun]
      · exact Keeps.finished s hpos id
      · exact Keeps.broken hpos
    · rw [emitting_bind_emit hpass, if_pos rfl]
      exact Respects.run s hpos
  alike := by
    intro F G
    refine .bind (Respects.alike .any) fun isEmitting => ?_
    split
    · exact Respects.alike .any
    · refine .bind (Respects.alike .any) fun _ => .bind (Respects.alike .any) fun locals => ?_
      exact .change (fun _ h => h) (fun _ => rfl) (fun _ => rfl) fun _ _ => rfl

instance [Respects .loud b x] : Respects g b (inFunctionOf id x) :=
  have loud : Respects .loud b (inFunctionOf id x) :=
    .enclosed (.inFunctionOf id x) fun h => absurd h (by decide)
  loud.weaken

instance {index : Nat} [From b index] (inner : Walk Unit) [Respects .loud b inner] (m : Modifiers)
    (returnType : ValueType) (name : Token) :
    Respects g b (functionDeclaration inner m returnType name index) := by
  unfold functionDeclaration
  refine .bind_of inferInstance fun s all s₁ hpos hrun => ?_
  have each := fun id => Respects.declareParameters (g := g) (parameters_index hpos hrun) id
  infer_instance

instance [Respects .loud b inner] : Respects .adding b (declaration inner) := by
  unfold declaration
  infer_instance

/-! ### States, enumerations, namespaces and metadata -/

instance (isClaimed : Bool) (current : Option Nat) (what : String) (index : Nat) :
    Respects .adding b (checkDefault isClaimed current what index) := by
  unfold checkDefault
  split <;> infer_instance

omit [g.Within .loud] in
instance [g.Within .idle] (engine editor : Bool) :
    Respects g b (introduceState engine editor id) := by
  unfold introduceState
  exact .seq fun _ => .of_under (fun s h => Keeps.taken s h ..) fun _ _ => rfl

section Keyed

variable {index : Nat} [From b index] (name : String)

end Keyed

instance (scope : Nat) (name : Token) (index : Nat) :
    Respects .adding b (namespaceWithin scope name index) := by
  unfold namespaceWithin
  infer_instance

instance (index : Nat) : Respects g b (requireNamespaceLevel index) := by
  unfold requireNamespaceLevel
  infer_instance

instance (path : List Token) (index : Nat) : Respects .adding b (namespaceOf path index) := by
  unfold namespaceOf
  exact .seq fun scope => .foldlM (fun scope name => inferInstance) scope

instance (entries : List (String × String)) :
    Respects g b (change fun s => { s with metadata := s.metadata ++ entries }) :=
  .of_under (fun s h => Keeps.beside s h ..) fun _ _ => rfl

end Declared

/-! ### All statements -/

section All

variable (inner : Walk Unit) [hinner : Respects .loud b inner]

instance (start resume : Nat) : Respects .adding b (forClauses inner start resume stop) := by
  have weak : Respects .adding b inner := hinner.weaken
  unfold forClauses
  infer_instance

end All

instance (e : Exclusion) : Ordinary e.code := ⟨by cases e <;> decide⟩

instance (e : Exclusion) (index : Nat) : Respects g b (requireClosed e index) := by
  unfold requireClosed
  exact .bind (.view fun _ _ => rfl) fun opened => inferInstance

theorem expect_of_absent {kind : Kind} (h : ∀ t ∈ s.tokens, t.kind ≠ kind) :
    ∃ e s₁, expect kind s = .error e s₁ := by
  have hpeek : peek s = .ok (s.tokens[s.pos]?.map Token.kind) s := rfl
  unfold expect
  rw [bind_of_ok hpeek]
  cases ht : s.tokens[s.pos]? with
  | none =>
    obtain ⟨log, -, -, -, hfatal⟩ :=
      fatal_eq (α := Token) .unexpectedEndOfFile "unexpected end of file" s
    exact ⟨_, _, hfatal⟩
  | some t =>
    rw [Option.map_some]
    dsimp only
    rw [if_neg (h t (Array.mem_of_getElem? ht))]
    obtain ⟨log, -, -, -, -, herror⟩ := errorAt_eq (α := Token) s.pos .expectingToken
      s!"expected {kind.describe} but found {t.kind.describe}" s
    exact ⟨_, _, herror⟩

/-- Where breakpoints make code under one set of switches alone, the tokens hold none. -/
instance (priority := high) {f : Bool → Walk Unit} [hf : ∀ isDebug, Respects g b (f isDebug)] :
    Respects g b (view (·.flags.debug) >>= fun isDebug => expectMark .kwBreakpoint >>= fun _ =>
      f isDebug) := by
  have rest : ∀ isDebug, Respects g b (expectMark .kwBreakpoint >>= fun _ => f isDebug) :=
    inferInstance
  refine .of_parallel (fun s => (rest s.flags.debug).run s) fun F G s hpos hs => ?_
  have hrun := (rest F.debug).alike.run s hpos hs
  show Parallel F G ((expectMark .kwBreakpoint >>= fun _ => f F.debug) (s.under F))
    ((expectMark .kwBreakpoint >>= fun _ => f G.debug) (s.under G))
  -- Flags that differ here never meet a breakpoint.
  rcases hs with hdebug | hnone
  · rwa [← hdebug]
  · obtain ⟨e, s₁, herror⟩ := expect_of_absent (s := s.under G) hnone
    have hmark : expectMark .kwBreakpoint (s.under G) = .error e s₁ := bind_of_error herror
    rw [bind_of_error hmark] at hrun ⊢
    exact hrun

instance [g.Within .loud] : Respects g b labelStatement := by
  unfold labelStatement
  infer_instance

instance [hinner : Respects .loud b inner] : Respects .adding b (statementWith inner) := by
  have weak : Respects .adding b inner := hinner.weaken
  unfold statementWith
  refine .seq fun next => ?_
  split <;> infer_instance

/-! ### Recovery -/

theorem le_statementEnd (tokens : Array Token) (i depth : Nat) :
    i ≤ statementEnd tokens i depth := by
  refine scanFrom_invariant (fun j _ => i ≤ j) (fun r => i ≤ r) (Nat.le_refl i)
    (fun j _ hj _ => Nat.le_max_left ..) (fun j _ _ _ _ hj _ => Nat.le_succ_of_le hj) ?_
  intro j depth t r _ hj hturn
  unfold endTurn at hturn
  split at hturn
  · split at hturn
    · cases hturn
      exact Nat.le_succ_of_le hj
    · cases hturn
  · cases hturn
  · split at hturn
    · cases hturn
      exact hj
    · split at hturn
      · cases hturn
        exact Nat.le_succ_of_le hj
      · cases hturn
  · cases hturn

theorem le_resumption (tokens : Array Token) (start pos : Nat) :
    pos ≤ resumption tokens start pos := by
  unfold resumption
  have h := le_statementEnd tokens pos (braceBalance (tokens.extract start pos).toList).toNat
  dsimp only
  split
  · exact Nat.le_succ_of_le h
  · exact h

/-- What was entered is left already when a statement is abandoned. -/
theorem State.recover_eq {e : Option Stop} (h : Keeps g b e s s₁) :
    ∃ blocks, s₁.recover s.snapshot =
      { s₁ with pos := resumption s₁.tokens s.pos s₁.pos, blocks } := by
  have hloops : outermost s.loops.length s₁.loops = s₁.loops := by
    rw [outermost, h.loops, Nat.sub_self, List.drop_zero]
  refine ⟨outermost s.blocks.length s₁.blocks, ?_⟩
  unfold State.recover State.restore State.snapshot
  dsimp only
  rw [hloops, ← h.scope, ← h.function, ← h.regions]

theorem guarded_of_ok {a : Unit} (h : x s = .ok a s₁) : guarded x s = .ok a s₁ := by
  unfold guarded
  rw [h]

theorem guarded_of_error {e : Stop} (h : x s = .error e s₁) (he : e ≠ .abandoned) :
    guarded x s = .error e s₁ := by
  unfold guarded
  rw [h]
  cases e with
  | abandoned => exact absurd rfl he
  | fatal => rfl
  | broken => rfl

theorem log_guarded (x : Walk Unit) (s : State) :
    (final (guarded x s)).log = (final (x s)).log := by
  unfold guarded
  cases x s with
  | ok a s₁ => rfl
  | error e s₁ =>
    cases e with
    | abandoned => dsimp only; split <;> rfl
    | _ => rfl

theorem guarded_of_abandoned (h : x s = .error .abandoned s₁) :
    guarded x s = if s.pos ≤ min s₁.pos s₁.tokens.size then .ok () (s₁.recover s.snapshot)
      else .error .broken s₁ := by
  unfold guarded
  rw [h]
  rfl

instance [hx : Respects .adding b x] : Respects .loud b (guarded x) := by
  refine .of_parallel (fun s hpos => ?_) fun F G s hpos hs => ?_
  · cases hrun : x s with
    | ok a s₁ =>
      have h := hx.ok hpos hrun
      rw [guarded_of_ok hrun]
      exact h.toLoud nofun
    | error e s₁ =>
      have h := hx.error hpos hrun
      by_cases he : e = .abandoned
      · subst he
        rw [guarded_of_abandoned hrun]
        obtain ⟨blocks, hrecover⟩ := State.recover_eq h
        rw [hrecover]
        -- A statement that is abandoned ends where the walk resumes.
        have hresume := Nat.le_trans (h.onward (.inr rfl)) (le_resumption s₁.tokens s.pos s₁.pos)
        have hfatal := fun hs => (h.fatal hs).absent (by intro he; cases he)
        split
        · exact Keeps.toLoud { h with
            onward := fun _ => hresume, fatal := fun hs => .ended (hfatal hs)
            loud := nofun, internal := nofun, still := fun hg => absurd hg (by decide) } nofun
        · exact Keeps.toLoud { h with
            onward := nofun, fatal := fun hs => .of_none (by intro he; cases he) (hfatal hs)
            loud := nofun, internal := nofun } nofun
      · rw [guarded_of_error hrun he]
        exact h.toLoud fun h => absurd (Option.some.inj h) he
  · have hrun := hx.alike.run s hpos hs
    have hlogF := log_guarded x (s.under F)
    have hlogG := log_guarded x (s.under G)
    generalize hF : x (s.under F) = r at hrun hlogF
    generalize hG : x (s.under G) = r' at hrun hlogG
    cases hrun with
    | ok a s₁ hs₁ =>
      rw [guarded_of_ok hF, guarded_of_ok hG]
      exact .ok a s₁ hs₁
    | error e s₁ hs₁ =>
      by_cases he : e = .abandoned
      · subst he
        rw [guarded_of_abandoned hF, guarded_of_abandoned hG]
        show Parallel F G (if s.pos ≤ min s₁.pos s₁.tokens.size then _ else _)
          (if s.pos ≤ min s₁.pos s₁.tokens.size then _ else _)
        split
        · exact .ok () (s₁.recover s.snapshot) hs₁
        · exact .error .broken s₁ hs₁
      · rw [guarded_of_error hF he, guarded_of_error hG he]
        exact .error e s₁ hs₁
    | first s₁ h =>
      rw [guarded_of_error hF nofun]
      exact .first s₁ (hlogG ▸ h)
    | second s₁ h =>
      rw [guarded_of_error hG nofun]
      exact .second s₁ (hlogF ▸ h)

instance respects_statementUpTo (n : Nat) : Respects .adding b (statementUpTo n) := by
  induction n with
  | zero => exact .broken
  | succ n ih =>
    exact inferInstanceAs (Respects .adding b (statementWith (guarded (statementUpTo n))))

instance : Respects .loud b statement := by
  unfold statement
  infer_instance

end StateScript.Walk
