import StateScript.Proofs.Walk.Records

/-! # What the second walk writes

  The second walk gives the functions their code and the targets their places. Whatever an
  instruction refers to belongs there: a symbol is of the sort that the opcode needs, and a
  target is one of the same function. A target is bound to a place of its own function,
  which is at most the end of the code so far; the return at the end of the body puts it
  inside. Nothing is written to functions that have no body here.
-/

namespace StateScript

/-- Neither code nor the place of a target differs. -/
def Table.SameCode (t t' : Table) : Prop :=
  ∀ id, t'.code id = t.code id ∧ t'.bound? id = t.bound? id

theorem Table.Edits.sameCode {p : Nat → SymbolKind → Prop}
    {q : Nat → (SymbolKind → SymbolKind) → Prop}
    {t t' : Table} (h : Table.Edits p q t t')
    (hp : ∀ owner kind, p owner kind → kind.code = [] ∧ kind.bound? = none)
    (hq : ∀ id g, q id g → ∀ k, (g k).code = k.code ∧ (g k).bound? = k.bound?) : t.SameCode t' := by
  induction h with
  | refl => exact fun _ => ⟨rfl, rfl⟩
  | tail _ hedit ih =>
    intro id
    rw [← (ih id).1, ← (ih id).2]
    cases hedit with
    | add name _ _ hown => exact ⟨code_add name (hp _ _ hown).1, bound?_add name (hp _ _ hown).2⟩
    | alter _ _ hown =>
      exact ⟨code_modifyKind fun k => (hq _ _ hown k).1, bound?_modifyKind fun k =>
        (hq _ _ hown k).2⟩

namespace Walk

variable {T : Table} {s s' : State} {id : Nat} {t t' : Table}

/-! ### Operands -/

/-- An instruction of a function: its targets are targets of the function, and all other
    operands suit the opcode. -/
def Belongs (T : Table) (f : Nat) (op : Op) : Prop :=
  ∀ x ∈ op.2, Suits T op.1 x ∨ ∃ id, x = .target id ∧ T.IsTargetOf id f

theorem Names.grows {op : Opcode} (h : Names t op id) (hgrows : t.Grows t') : Names t' op id := by
  cases op
  case call => exact hgrows.isCallable h
  case callMethod => exact hgrows.isMethod h
  case getMember | getMemberIndexed | setMember | setMemberIndexed => exact hgrows.isMember h
  case gotoState => exact hgrows.isState h
  all_goals exact hgrows.isText h

theorem Suits.grows {op : Opcode} {x : Operand} (h : Suits t op x) (hgrows : t.Grows t') :
    Suits t' op x := by
  cases x with
  | symbol id => exact Names.grows h hgrows
  | _ => exact h

theorem Belongs.grows {f : Nat} {op : Op} (h : Belongs t f op) (hgrows : t.Grows t') :
    Belongs t' f op := by
  intro x hx
  rcases h x hx with suits | ⟨id, hid, haims⟩
  · exact .inl (suits.grows hgrows)
  · exact .inr ⟨id, hid, hgrows.isTargetOf haims⟩

/-! ### Instructions -/

theorem mem_putAt {place : Option Nat} {code : Array Instruction} {i x : Instruction}
    (hx : x ∈ (putAt code place i).toList) : x ∈ code.toList ∨ x = i := by
  cases place with
  | none => simpa [putAt] using hx
  | some place =>
    unfold putAt insertAt at hx
    dsimp only at hx
    split at hx
    · simp only [Array.toList_insertIdx, List.mem_insertIdx ‹_›] at hx
      exact hx.symm
    · simpa using hx

section Emit

variable (op : Opcode) (operands : List Operand)
  {place : Option Nat}

theorem code_emit_of_ne {j : Nat} (hj : j ≠ s.function) :
    (s.emit op operands place).table.code j = s.table.code j := by
  obtain ⟨i, files, -, h⟩ := s.emit_eq op operands place
  rw [h]
  unfold Table.code
  rw [Table.kind?_modifyKind, if_neg fun e => hj e.symm]

theorem bound?_emit (j : Nat) : (s.emit op operands place).table.bound? j = s.table.bound? j := by
  obtain ⟨i, files, -, h⟩ := s.emit_eq op operands place
  rw [h]
  exact Table.bound?_modifyKind fun k => by cases k <;> rfl

theorem kind?_target_of_emit {bound : Option Nat}
    (h : (s.emit op operands place).table.kind? id = some (.target bound)) :
    s.table.kind? id = some (.target bound) := by
  obtain ⟨i, files, -, hemit⟩ := s.emit_eq op operands place
  rw [hemit, Table.kind?_modifyKind] at h
  split at h
  · obtain ⟨k, hk, hfunction⟩ := Option.map_eq_some_iff.1 h
    cases k with
    | target => rwa [← hfunction]
    | _ => cases hfunction
  · exact h

/-- Where there is a function, it gets the instruction. -/
theorem code_emit (place : Option Nat) {f : Function}
    (hf : s.table.function? s.function = some f) :
    ∃ i : Instruction, i.op = (op, operands) ∧
      (s.emit op operands place).table.code s.function =
        (putAt f.code place i).toList.map Instruction.op := by
  obtain ⟨i, files, hi, h⟩ := s.emit_eq op operands place
  refine ⟨i, hi, ?_⟩
  rw [h]
  unfold Table.code
  rw [Table.kind?_modifyKind, if_pos rfl, Table.function?_eq_some.1 hf]
  rfl

theorem code_of_function? {f : Function} (hf : t.function? id = some f) :
    t.code id = f.code.toList.map Instruction.op := by
  unfold Table.code
  rw [Table.function?_eq_some.1 hf]
  rfl

/-- An instruction at the end. -/
theorem code_emit_push (hs : s.table.IsDefined s.function) :
    (s.emit op operands none).table.code s.function = s.table.code s.function ++
      [(op, operands)] := by
  obtain ⟨f, hf, -⟩ := hs
  obtain ⟨i, hi, hcode⟩ := code_emit op operands none hf
  rw [hcode, code_of_function? hf]
  show (f.code.push i).toList.map Instruction.op = _
  rw [Array.toList_push, List.map_append, List.map_singleton, hi]

theorem mem_code_emit (hs : s.table.IsDefined s.function) {j : Nat} {x : Op}
    (hx : x ∈ (s.emit op operands place).table.code j) :
    x ∈ s.table.code j ∨ j = s.function ∧ x = (op, operands) := by
  by_cases hj : j = s.function
  · subst hj
    obtain ⟨f, hf, -⟩ := hs
    obtain ⟨i, hi, hcode⟩ := code_emit op operands place hf
    rw [hcode] at hx
    obtain ⟨y, hy, rfl⟩ := List.mem_map.1 hx
    rw [code_of_function? hf]
    -- One instruction is new.
    rcases mem_putAt hy with hold | rfl
    · exact .inl (List.mem_map_of_mem hold)
    · exact .inr ⟨rfl, hi⟩
  · rw [code_emit_of_ne op operands hj] at hx
    exact .inl hx

/-- Code gets longer only. -/
theorem length_code_emit (hs : s.table.IsDefined s.function) (j : Nat) :
    (s.table.code j).length ≤ ((s.emit op operands place).table.code j).length := by
  by_cases hj : j = s.function
  · subst hj
    obtain ⟨f, hf, -⟩ := hs
    obtain ⟨i, -, hcode⟩ := code_emit op operands place hf
    rw [hcode, code_of_function? hf]
    have hlt := size_putAt f.code place i
    simp only [List.length_map, Array.length_toList]
    omega
  · have hsame : (s.emit op operands place).table.code j = s.table.code j :=
      code_emit_of_ne op operands hj
    exact Nat.le_of_eq (congrArg List.length hsame.symm)

end Emit

/-! ### The invariant -/

/-- Code that does not go on behind its end. -/
def Closed (ops : List Op) : Prop := ∀ op, ops.getLast? = some op → op.1 = .ret

/-- Code and targets while the function `c` is being written. -/
structure State.Written (T : Table) (c : Nat) (s : State) : Prop where
  code : ∀ f, ∀ op ∈ s.table.code f, T.IsDefined f ∧ Belongs T f op
  bound : ∀ id place, s.table.bound? id = some place → ∃ f, T.scope? id = some f ∧ T.IsDefined f ∧
    (place < (s.table.code f).length ∨ f = c ∧ f ≠ globalScope ∧ place ≤ (s.table.code f).length)
  ends : ∀ f, f ≠ c → f ≠ globalScope → Closed (s.table.code f)

variable {c : Nat}

theorem State.Written.of_sameCode (h : s.Written T c) (hsame : s.table.SameCode s'.table) :
    s'.Written T c := by
  refine ⟨fun f op hop => ?_, fun id place hbound => ?_, fun f hf hglobal => ?_⟩
  · rw [(hsame f).1] at hop
    exact h.code f op hop
  · rw [(hsame id).2] at hbound
    obtain ⟨f, hscope, hdefined, hplace⟩ := h.bound id place hbound
    refine ⟨f, hscope, hdefined, ?_⟩
    rw [(hsame f).1]
    exact hplace
  · rw [(hsame f).1]
    exact h.ends f hf hglobal

theorem State.Written.emit (h : s.Written T c) {op : Opcode} {operands : List Operand}
    (spot : Option Nat) (hdefined : T.IsDefined s.function) (hs : s.table.IsDefined s.function)
    (hc : s.function = c ∨ s.function = globalScope)
    (hbelongs : Belongs T s.function (op, operands)) :
    (s.emit op operands spot).Written T c := by
  refine ⟨fun f x hx => ?_, fun id place hbound => ?_, fun f hf hglobal => ?_⟩
  · rcases mem_code_emit op operands hs hx with hold | ⟨rfl, rfl⟩
    · exact h.code f x hold
    · exact ⟨hdefined, hbelongs⟩
  · rw [bound?_emit] at hbound
    obtain ⟨f, hscope, hfunction, hplace⟩ := h.bound id place hbound
    refine ⟨f, hscope, hfunction, ?_⟩
    have hlength : _ ≤ ((s.emit op operands spot).table.code f).length :=
      length_code_emit op operands hs f
    rcases hplace with hplace | ⟨hcurrent, hglobal, hplace⟩
    · exact .inl (by omega)
    · exact .inr ⟨hcurrent, hglobal, by omega⟩
  · -- The function that is written to is the current one, or the code outside of functions.
    have hne : f ≠ s.function := by
      rintro rfl
      rcases hc with hc | hc
      · exact hf hc
      · exact hglobal hc
    rw [code_emit_of_ne op operands hne]
    exact h.ends f hf hglobal

theorem code_placed (t : Table) (id place j : Nat) :
    (t.modifyKind id (placed place)).code j = t.code j :=
  Table.code_modifyKind fun k => by cases k <;> rfl

theorem code_bind (id f : Nat) : (s.bind id).table.code f = s.table.code f :=
  code_placed s.table id s.here f

/-- A target is bound to the end of the code so far. -/
theorem State.Written.place (h : s.Written T s.function) (hdefined : T.IsDefined s.function)
    (hinside : s.function ≠ globalScope) (haims : T.scope? id = some s.function) :
    State.Written T s.function (s.bind id) := by
  refine ⟨fun f op hop => ?_, fun j place hbound => ?_, fun f hf hglobal => ?_⟩
  · rw [code_bind] at hop
    exact h.code f op hop
  · simp only [code_bind]
    rcases bound?_bind hbound with ⟨rfl, rfl⟩ | hbound
    · exact ⟨s.function, haims, hdefined, .inr ⟨rfl, hinside, Nat.le_of_eq (here_eq_length s)⟩⟩
    · exact h.bound j place hbound
  · rw [code_bind]
    exact h.ends f hf hglobal

/-! ### Steps, moves and courses -/

theorem Discovers.code {owner : Nat} {name : String} {kind : SymbolKind}
    (h : Discovers t owner name kind) : kind.code = [] ∧ kind.bound? = none := by
  cases h <;> exact ⟨rfl, rfl⟩

theorem sameCode_annotate (owner : Nat) (howner : owner < s.table.size) :
    s.table.SameCode (s.annotate owner).table := by
  have hedits := edits_annotate (p := fun _ kind => ∃ value, kind = .metadata value)
    (q := fun _ _ => False) (fun value => ⟨value, rfl⟩) howner
  refine hedits.sameCode ?_ fun _ _ h => h.elim
  rintro _ _ ⟨value, rfl⟩
  exact ⟨rfl, rfl⟩

theorem sameCode_modifyKind (id : Nat) {g : SymbolKind → SymbolKind}
    (hg : ∀ k, (g k).code = k.code ∧ (g k).bound? = k.bound?) : t.SameCode (t.modifyKind id g) :=
  fun _ => ⟨Table.code_modifyKind fun k => (hg k).1, Table.bound?_modifyKind fun k => (hg k).2⟩

theorem sameCode_add {owner : Nat} (name : String) {kind : SymbolKind}
    (h : kind.code = [] ∧ kind.bound? = none) : t.SameCode (t.add (some owner) name kind) :=
  fun _ => ⟨Table.code_add name h.1, Table.bound?_add name h.2⟩

theorem Step.written (h : Step T s s') (hdefined : T.IsDefined s.function)
    (hs : s.table.IsDefined s.function) (hc : s.function = c ∨ s.function = globalScope)
    (hwritten : s.Written T c) : s'.Written T c := by
  cases h with
  | aside => exact hwritten.of_sameCode fun _ => ⟨rfl, rfl⟩
  | use id =>
    apply hwritten.of_sameCode
    exact sameCode_modifyKind id fun k => by cases k <;> exact ⟨rfl, rfl⟩
  | discover _ new =>
    apply hwritten.of_sameCode
    exact sameCode_add _ new.code
  | @fix id =>
    apply hwritten.of_sameCode
    exact sameCode_modifyKind id fun k => by cases k <;> exact ⟨rfl, rfl⟩
  | emit _ suits => exact hwritten.emit _ hdefined hs hc fun x hx => .inl (suits x hx)

/-- What has a body in the end has it in the second walk already. -/
structure Ready (T t : Table) : Prop where
  isDefined : ∀ id, T.IsDefined id → t.IsDefined id
  outside : T.IsDefined globalScope

theorem Ready.grows (h : Ready T t) (hgrows : t.Grows t') : Ready T t' :=
  ⟨fun id hid => hgrows.isDefined (h.isDefined id hid), h.outside⟩

theorem Steps.written (h : Steps T s s') (hready : Ready T s.table)
    (hdefined : T.IsDefined s.function)
    (hc : s.function = c ∨ s.function = globalScope) (hwritten : s.Written T c) :
    s'.Written T c := by
  induction h with
  | refl => exact hwritten
  | @tail s₁ s₂ hsteps hstep ih =>
    have hfunction := (Steps.steady hsteps).function
    have hready₁ := hready.grows (Steps.grows hsteps)
    rw [← hfunction] at hdefined hc
    exact hstep.written hdefined (hready₁.isDefined _ hdefined) hc ih

theorem Move.written (h : Move T s s') (hpass : s.pass = .emit) (hready : Ready T s.table)
    (hdefined : T.IsDefined s.function) (hwritten : s.Written T s.function) :
    s'.Written T s.function := by
  have hs := hready.isDefined _ hdefined
  cases h with
  | step h => exact h.written hdefined hs (.inl rfl) hwritten
  | enter | retrieve => exact hwritten.of_sameCode fun _ => ⟨rfl, rfl⟩
  | annotate howner =>
    apply hwritten.of_sameCode
    exact sameCode_annotate _ howner
  | space =>
    apply hwritten.of_sameCode
    exact sameCode_add _ ⟨rfl, rfl⟩
  | declare _ hdeclare | introduce hdeclare | literal _ _ hdeclare =>
    -- Only the first walk declares.
    cases hdeclare.symm.trans hpass
  | retype id =>
    apply hwritten.of_sameCode
    exact sameCode_modifyKind id fun k => by cases k <;> exact ⟨rfl, rfl⟩
  | @jump op id _ _ haims =>
    refine hwritten.emit _ hdefined hs (.inl rfl) fun x hx => ?_
    rw [List.mem_singleton.1 hx]
    exact .inr ⟨id, rfl, haims⟩
  | bind _ hinside haims => exact hwritten.place hdefined hinside haims.scope

/-- A body is closed by a return, and all of its targets are inside then. -/
theorem State.Written.close (h : s.Written T s.function) (hdefined : T.IsDefined s.function)
    (hs : s.table.IsDefined s.function) : (s.emit .ret [] none).Written T globalScope := by
  have hbelongs : Belongs T s.function (.ret, []) := fun x hx => by cases hx
  have hlater := h.emit none hdefined hs (.inl rfl) hbelongs
  refine ⟨hlater.code, fun id place hbound => ?_, fun f hf _ => ?_⟩
  · obtain ⟨f, hscope, hfunction, hplace⟩ := h.bound id place (by rwa [bound?_emit] at hbound)
    refine ⟨f, hscope, hfunction, .inl ?_⟩
    rcases hplace with hplace | ⟨rfl, -, hplace⟩
    · exact Nat.lt_of_lt_of_le hplace (length_code_emit .ret [] hs f)
    -- A target at the end of the code now has the return behind it.
    · rw [code_emit_push .ret [] hs, List.length_append, List.length_singleton]
      omega
  · by_cases hcurrent : f = s.function
    · subst hcurrent
      intro op hop
      rw [code_emit_push .ret [] hs, List.getLast?_concat] at hop
      cases hop
      rfl
    · exact hlater.ends f hcurrent hf

/-- Outside of functions no target waits for the end of a body, so that any body may be next. -/
theorem State.Written.inside (h : s.Written T s.function) (hfunction : s.function = globalScope)
    (id : Nat) : (s.inside id).Written T id := by
  refine ⟨h.code, fun j place hbound => ?_, fun f _ hglobal => ?_⟩
  · obtain ⟨f, hscope, hdefined, hplace⟩ := h.bound j place hbound
    refine ⟨f, hscope, hdefined, .inl ?_⟩
    rcases hplace with hplace | ⟨hcurrent, hglobal, -⟩
    · exact hplace
    · exact absurd (hcurrent.trans hfunction) hglobal
  · exact h.ends f (fun hcurrent => hglobal (hcurrent.trans hfunction)) hglobal

/-- The second walk writes what belongs, and closes what it opens. -/
theorem Course.written (h : Course T s s') (hpass : s.pass = .emit) (hready : Ready T s.table)
    (hdefined : T.IsDefined s.function) (hwritten : s.Written T s.function) :
    s'.Written T s'.function := by
  induction h with
  | refl => exact hwritten
  | move h =>
    rw [h.steady.function]
    exact h.written hpass hready hdefined hwritten
  | trans h _ ih ih₁ =>
    have hsteady := h.steady
    exact ih₁ (hsteady.pass.trans hpass) (hready.grows h.grows) (hsteady.function ▸ hdefined)
      (ih hpass hready hdefined hwritten)
  | @outside s s₁ h =>
    have hlater : s₁.Written T s.function :=
      Steps.written h hready hready.outside (.inr rfl) (hwritten.of_sameCode fun _ => ⟨rfl, rfl⟩)
    exact hlater.of_sameCode fun _ => ⟨rfl, rfl⟩
  | framed hdeclare => cases hdeclare.symm.trans hpass
  -- The body is written to its own function, which it closes at its end.
  | @filled s s₀ s₁ token id _ hfunction hid _ parameters body ih ih₁ =>
    have hopen := ih hpass hready hdefined (hwritten.of_sameCode fun _ => ⟨rfl, rfl⟩)
    have hready₀ : Ready T s₀.table := hready.grows parameters.grows
    have hready₁ : Ready T s₁.table := hready₀.grows body.grows
    have hinside := hopen.inside (parameters.steady.function.trans hfunction) id
    have hbody := ih₁ (parameters.steady.pass.trans hpass) hready₀ hid hinside
    have hcurrent : s₁.function = id := body.steady.function
    have hclosed := hbody.close (hcurrent.symm ▸ hid) (hready₁.isDefined _ (hcurrent.symm ▸ hid))
    show State.Written T s.function _
    rw [hfunction]
    exact hclosed.of_sameCode fun _ => ⟨rfl, rfl⟩

/-! ### Both walks -/

/-- A table whose code is finished: what stands in it belongs there, every target has a place
    inside of its function, and no body goes on behind its end. -/
structure Complete (t : Table) : Prop where
  code : ∀ f, ∀ op ∈ t.code f, t.IsDefined f ∧ Belongs t f op
  target : ∀ id bound, t.kind? id = some (.target bound) → ∃ f place, bound = some place ∧
    t.scope? id = some f ∧ t.IsDefined f ∧ place < (t.code f).length
  ends : ∀ f, Closed (t.code f)

section Walked

variable {flags : Flags} {tokens : List Token} {s t : State}

theorem isDefined_globalScope : initialTable.IsDefined globalScope := ⟨_, rfl, rfl⟩

/-- Functions with a body are all declared before the second walk. -/
theorem Walked.ready (h : Walked flags tokens s t) : Ready t.table s.table := by
  refine ⟨fun id hid => ?_, h.grows_initial.isDefined isDefined_globalScope⟩
  rcases h.exists_body hid with rfl | ⟨d, hd, hrole, rfl, -⟩
  · exact (keeps_first h.declares).table.isDefined isDefined_globalScope
  · exact ((h.sound_first d hd).function hrole).2

theorem Walked.written (h : Walked flags tokens s t) : t.Written t.table globalScope := by
  have hdeclare := (keeps_first h.declares).declare rfl
  -- The first walk has written nothing.
  have hblank : (s.begin .emit).Written t.table globalScope := by
    refine ⟨fun f op hop => ?_, fun id place hbound => ?_, fun f _ _ op hop => ?_⟩
    · rw [show (s.begin .emit).table.code f = [] from (hdeclare f).1.trans
        (code_initialTable f)] at hop
      cases hop
    · rw [show (s.begin .emit).table.bound? id = none from
        (hdeclare id).2.trans (bound?_initialTable id)] at hbound
      cases hbound
    · rw [show (s.begin .emit).table.code f = [] from (hdeclare f).1.trans
        (code_initialTable f)] at hop
      cases hop
  have hfunction : t.function = globalScope := h.second.steady.function
  rw [← hfunction]
  exact h.second.written rfl h.ready h.ready.outside hblank

/-- After both walks the code is finished. -/
theorem Walked.complete (h : Walked flags tokens s t) : Complete t.closed.table := by
  have hfunction : t.function = globalScope := h.second.steady.function
  have hglobal : t.table.IsDefined t.function := hfunction ▸ h.ready.outside
  have hwritten : t.Written t.table t.function := hfunction ▸ h.written
  have hclosed : t.closed.Written t.table globalScope := hwritten.close hglobal hglobal
  have hgrows : t.table.Grows t.closed.table :=
    (edits_emit (T := t.table) (p := fun _ _ => False) h.second.steady.pass .ret [] none).grows
  refine ⟨fun f op hop => ?_, fun id bound hkind => ?_, fun f => ?_⟩
  · obtain ⟨hdefined, hbelongs⟩ := hclosed.code f op hop
    exact ⟨hgrows.isDefined hdefined, hbelongs.grows hgrows⟩
  · have hold := kind?_target_of_emit .ret [] hkind
    obtain ⟨x, hx, hk⟩ := Table.kind?_eq_some.1 hold
    -- A walk without an error leaves no target unbound.
    obtain ⟨place, hplace⟩ := bound_of_target h.declares h.emits h.quiet hx (by rw [hk]; rfl)
    cases hk.symm.trans hplace
    have hbound : t.closed.table.bound? id = some place := by
      unfold Table.bound?
      rw [hkind]
      rfl
    obtain ⟨f, hscope, hdefined, hinside⟩ := hclosed.bound id place hbound
    refine ⟨f, place, rfl, ?_, hgrows.isDefined hdefined, ?_⟩
    · rw [hgrows.scope? (Table.get?_lt hx)]
      exact hscope
    · rcases hinside with hinside | ⟨hcurrent, hne, -⟩
      · exact hinside
      · exact absurd hcurrent hne
  · by_cases hf : f = globalScope
    · subst hf
      intro op hop
      rw [← hfunction, show t.closed.table.code t.function = _ from code_emit_push .ret [] hglobal,
        List.getLast?_concat] at hop
      cases hop
      rfl
    · exact hclosed.ends f hf hf

end Walked

end Walk

end StateScript
