import StateScript.Proofs.Walk.Records

/-! # Allocation of storage

  The slots of memory are given out one after the other over both walks. A local gets the
  next place in the frame of the function around it; no move touches the frame of another
  function, and at the end of its body the frame of a function is laid out. Since every
  function with a body is declared where its body opens, all of them are laid out in the
  end.
-/

namespace StateScript

namespace Table

variable {p : Nat → SymbolKind → Prop} {q : Nat → (SymbolKind → SymbolKind) → Prop} {t t' : Table}
  {id : Nat}

/-- Edits that take no slot of memory. -/
theorem Edits.slots (h : Edits p q t t') (hp : ∀ owner kind, p owner kind → kind.slot? = none)
    (hq : ∀ j g, q j g → ∀ k, (g k).place? = k.place?) : t'.slots = t.slots := by
  induction h with
  | refl => rfl
  | tail _ hedit ih =>
    rw [← ih]
    cases hedit with
    | add name _ _ hown => rw [slots_add, hp _ _ hown, Option.toList_none, List.append_nil]
    | alter _ _ hown => exact slots_modifyKind (hq _ _ hown)

theorem Edits.sorted (h : Edits p q t t')
    (hp : ∀ owner v, p owner (.var v) → v.storage.isStack = !v.kind.usesMemory)
    (hq : ∀ j g, q j g → ∀ k, (g k).place? = k.place?) (hsorted : t.Sorted) : t'.Sorted := by
  induction h with
  | refl => exact hsorted
  | tail _ hedit ih =>
    cases hedit with
    | add name _ _ hown =>
      refine ih.add name ?_
      rintro v rfl
      exact hp _ v hown
    | alter _ _ hown => exact ih.modifyKind (hq _ _ hown)

/-- Edits that add nothing to the frame of a function. -/
theorem Edits.frame (h : Edits p q t t') (hform : t.WellFormed) (hid : id < t.size)
    (hp : ∀ kind, p id kind → kind.placeOf? .local = none ∧ kind.placeOf? .parameter = none)
    (hq : ∀ j g, q j g → ∀ k, (g k).place? = k.place?)
    (hextent : ∀ g, q id g → ∀ k, (g k).extent? = k.extent?) : t'.frame id = t.frame id := by
  induction h with
  | refl => rfl
  | @tail t₁ t₂ hedits hedit ih =>
    have hform₁ := Edits.wellFormed hedits hform
    have hid₁ := Nat.lt_of_lt_of_le hid (Edits.grows hedits).size_le
    rw [← ih]
    cases hedit with
    | @add owner name kind howner _ hown =>
      by_cases hne : owner = id
      -- What the function itself gets takes no place in its frame.
      · subst hne
        exact frame_add hform₁ howner name (hp kind hown).1 (hp kind hown).2 hid₁
      · exact frame_add_of_ne hform₁ howner name kind hne hid₁
    | alter _ _ hown =>
      refine frame_modifyKind (hq _ _ hown) fun hj => ?_
      subst hj
      exact hextent _ hown

end Table

namespace Walk

variable {T : Table} {s s' : State} {id : Nat} {h : Head} {owner : Nat} {role : Role} {s₁ : State}

theorem place?_alters {g : SymbolKind → SymbolKind} (h : Alters T s id g) (k : SymbolKind) :
    (g k).place? = k.place? := by
  cases h with
  | @settle _ f hf =>
    cases k with
    | var v =>
      show some ((f v).kind, (f v).storage) = _
      rw [hf.kind, hf.storage]
      rfl
    | _ => rfl
  | _ => cases k <;> rfl

theorem extent?_alters {g : SymbolKind → SymbolKind} (h : Alters T s id g) (hid : ¬ T.IsMethod id)
    (k : SymbolKind) : (g k).extent? = k.extent? := by
  cases h with
  | fix types hmethod => exact absurd hmethod hid
  | _ => cases k <;> rfl

theorem Gains.slot? {kind : SymbolKind} (h : Gains s owner kind) : kind.slot? = none := by
  cases h with
  | discovered new => cases new <;> rfl
  | _ => rfl

theorem Gains.placeOf? {kind : SymbolKind} (h : Gains s owner kind) :
    kind.placeOf? .local = none ∧ kind.placeOf? .parameter = none := by
  cases h with
  | discovered new => cases new <;> exact ⟨rfl, rfl⟩
  | _ => exact ⟨rfl, rfl⟩

theorem Gains.isStack {v : Variable} (h : Gains s owner (.var v)) :
    v.storage.isStack = !v.kind.usesMemory := by
  cases h with
  | discovered new =>
    cases new
    rfl

/-! ### Memory -/

/-- The slots of memory are taken one after the other. -/
structure State.Stored (s : State) : Prop where
  slots : s.table.slots = (List.range s.memorySize).map fun (i : Nat) => (i : Int)
  sorted : s.table.Sorted

theorem State.Stored.introduce (hstored : s.Stored) (admits : s.Admits h) :
    (s.introduce h).Stored := by
  have hedits := edits_introduce (q := fun _ _ => False) admits
  obtain ⟨table, declared, hintroduce⟩ := introduce_eq h s
  constructor
  · rw [hedits.slots ?_ fun _ _ h => h.elim, hstored.slots, hintroduce]
    rintro owner kind (⟨-, rfl⟩ | ⟨-, hkind⟩)
    · rfl
    · cases hkind <;> rfl
  · refine hedits.sorted ?_ (fun _ _ h => h.elim) hstored.sorted
    rintro owner v (⟨-, hv⟩ | ⟨-, hkind⟩)
    · cases hv
    · cases hkind
      rfl

theorem Calm.stored (h : Calm T s s') (hstored : s.Stored) : s'.Stored where
  slots := by
    rw [h.edits.slots (fun _ _ hnew => hnew.slot?) fun _ _ => place?_alters, h.memorySize]
    exact hstored.slots
  sorted := h.edits.sorted (fun _ _ hnew => hnew.isStack) (fun _ _ => place?_alters) hstored.sorted

theorem Declares.stored {token : Nat} {name : String} {kind : SymbolKind}
    (new : Declares s role owner name kind s₁) (hstored : s.Stored) :
    (s₁.declare token role owner name kind).Stored := by
  have hslots : (s₁.declare token role owner name kind).table.slots =
      ((List.range s.memorySize).map fun (i : Nat) => (i : Int)) ++ kind.slot?.toList := by
    rw [State.declare, Table.slots_add, new.table, hstored.slots]
  have hsorted : s₁.table.Sorted := new.table ▸ hstored.sorted
  refine ⟨hslots.trans ?_, hsorted.add name ?_⟩
  · cases new with
    -- The new cell is the one behind all others.
    | memory hrole hkind hstorage =>
      have hslot : (SymbolKind.var _).slot? = some (s.memorySize : Int) :=
        congrArg Storage.memory? hstorage
      rw [hslot]
      show _ = (List.range (s.memorySize + 1)).map _
      rw [List.range_succ, List.map_append]
      rfl
    | inFrame hinside hrole hkind hstorage =>
      have hslot : (SymbolKind.var _).slot? = none := congrArg Storage.memory? hstorage
      rw [hslot]
      exact List.append_nil _
    | _ => exact List.append_nil _
  · rintro v rfl
    cases new with
    | memory hrole hkind hstorage =>
      rw [hstorage, hkind]
      rfl
    | inFrame hinside hrole hkind hstorage =>
      rw [hstorage, hkind]
      rfl

/-- Memory is given out slot by slot. -/
theorem invariant_stored (T : Table) : Invariant T State.Stored where
  moved hs := ⟨hs.slots, hs.sorted⟩
  calm h hs := h.stored hs
  declare _ _ new hs := new.stored hs
  introduce admits hs := hs.introduce admits
  -- The frame takes no slot.
  frame _ hform hs := ⟨(Table.slots_layFrame hform).trans hs.slots, hs.sorted.layFrame hform⟩

/-! ### Frames of other functions -/

/-- A function whose frame nothing is added to while the walk is where `s` is. -/
def State.Spares (s : State) (id : Nat) : Prop :=
  id ≠ s.function ∨ id = globalScope ∨ s.pass = .emit

theorem frame_introduce (admits : s.Admits h) (hform : s.table.WellFormed)
    (hid : id < s.table.size) : (s.introduce h).table.frame id = s.table.frame id := by
  refine (edits_introduce (q := fun _ _ => False) admits).frame hform hid ?_ (fun _ _ h => h.elim)
    fun _ h => h.elim
  rintro kind (⟨-, rfl⟩ | ⟨hnew, -⟩)
  · exact ⟨rfl, rfl⟩
  · exact absurd hnew (Nat.ne_of_lt hid)

theorem Calm.frame (h : Calm T s s') (hform : s.table.WellFormed) (hid : id < s.table.size)
    (hmethod : ¬ T.IsMethod id) : s'.table.frame id = s.table.frame id :=
  h.edits.frame hform hid (fun _ hnew => hnew.placeOf?) (fun _ _ => place?_alters)
    fun _ halters => extent?_alters halters hmethod

/-- A declaration adds to the frame of the current function at most. -/
theorem Declares.frame {token : Nat} {name : String} {kind : SymbolKind}
    (new : Declares s role owner name kind s₁) (hform : s.table.WellFormed)
    (howner : owner < s.table.size) (hpass : s.pass = .declare) (hid : id < s.table.size)
    (hspares : s.Spares id) :
    (s₁.declare token role owner name kind).table.frame id = s.table.frame id := by
  unfold State.declare
  rw [new.table]
  by_cases hne : owner = id
  · subst hne
    cases new with
    | memory hrole hkind hstorage =>
      refine Table.frame_add hform howner name ?_ ?_ hid <;> apply SymbolKind.placeOf?_eq_none <;>
        exact fun h => by rw [h] at hkind; cases hkind
    -- A local goes into the frame of the current function.
    | inFrame hinside =>
      rcases hspares with h | h | h
      · exact absurd rfl h
      · exact absurd h hinside
      · cases hpass.symm.trans h
    | _ => exact Table.frame_add hform howner name rfl rfl hid
  · exact Table.frame_add_of_ne hform howner name kind hne hid

theorem Move.frame (h : Move T s s') (hform : s.table.WellFormed) (hid : id < s.table.size)
    (hmethod : ¬ T.IsMethod id) (hspares : s.Spares id) : s'.table.frame id = s.table.frame id := by
  rcases h.calm_or_establishes with calm | established
  · exact calm.frame hform hid hmethod
  · cases established with
    | one token hpass howner houter new => exact new.frame hform howner hpass hid hspares
    | function hpass admits => exact frame_introduce admits hform hid

theorem Steps.frame (h : Steps T s s') (hform : s.table.WellFormed) (hid : id < s.table.size)
    (hmethod : ¬ T.IsMethod id) : s'.table.frame id = s.table.frame id := by
  induction h with
  | refl => rfl
  | tail hsteps hstep ih =>
    have hid₁ := Nat.lt_of_lt_of_le hid (Steps.grows hsteps).size_le
    rw [← ih]
    exact hstep.calm.frame (Steps.wellFormed hsteps hform) hid₁ hmethod

/-- No move touches the frame of another function. -/
theorem Course.frame (h : Course T s s') (hform : s.table.WellFormed) (hid : id < s.table.size)
    (hmethod : ¬ T.IsMethod id) (hspares : s.Spares id) : s'.table.frame id = s.table.frame id := by
  induction h with
  | refl => rfl
  | move h => exact h.frame hform hid hmethod hspares
  | trans h _ ih ih₁ =>
    have hid₁ := Nat.lt_of_lt_of_le hid h.grows.size_le
    rw [← ih hform hid hspares]
    refine ih₁ (h.wellFormed hform) hid₁ ?_
    unfold State.Spares
    rw [h.steady.function, h.steady.pass]
    exact hspares
  | outside h =>
    have hs₁ := Steps.frame h hform hid hmethod
    exact hs₁
  -- The function that is laid out is a new one.
  | @framed s s₁ h hpass admits _ body ih =>
    have hedits := edits_introduce (q := fun _ _ => False) admits
    have hform₀ := hedits.wellFormed hform
    have hne : id ≠ s.table.size := Nat.ne_of_lt hid
    rw [Table.frame_layFrame_of_ne (body.wellFormed hform₀) hne, ← frame_introduce admits hform hid]
    exact ih hform₀ (Nat.lt_of_lt_of_le hid hedits.grows.size_le) (.inl hne)
  | @filled s s₀ s₁ token f hpass _ _ _ parameters body ih ih₁ =>
    have hform₀ := parameters.wellFormed hform
    have hid₀ := Nat.lt_of_lt_of_le hid parameters.grows.size_le
    have hid₁ := Nat.lt_of_lt_of_le hid₀ body.grows.size_le
    have hpass₀ := parameters.steady.pass.trans hpass
    have hpass₁ := body.steady.pass.trans hpass₀
    -- Behind the body comes a return, which touches no place.
    have hreturn := edits_emit (T := T) (p := fun _ _ => False) hpass₁ .ret [] none
    have hs₁ := hreturn.frame (body.wellFormed hform₀) hid₁ (fun _ h => h.elim)
      (fun _ _ => place?_alters) fun _ halters => extent?_alters halters hmethod
    exact hs₁.trans
      ((ih₁ hform₀ hid₀ (.inr (.inr hpass₀))).trans (ih hform hid (.inr (.inr hpass))))

/-! ### The frame of the current function -/

theorem Steps.localCount (h : Steps T s s') : s'.localCount = s.localCount := by
  induction h with
  | refl => rfl
  | tail _ hstep ih => exact hstep.calm.localCount.trans ih

theorem Declares.frame_function {token : Nat} {name : String} {kind : SymbolKind} {count : Nat}
    (new : Declares s role owner name kind s₁) (hform : s.table.WellFormed)
    (howner : owner < s.table.size) (hid : s.function < s.table.size)
    (hopen : s.table.frame s.function = .opened count s.localCount) :
    (s₁.declare token role owner name kind).table.frame s.function =
      .opened count s₁.localCount := by
  unfold State.declare
  rw [new.table]
  cases new with
  | inFrame hinside hrole hkind hstorage =>
    exact Table.frame_add_local hform hid name hkind hstorage hopen
  | memory hrole hkind hstorage =>
    refine (Table.frame_add hform howner name ?_ ?_ hid).trans hopen <;>
      apply SymbolKind.placeOf?_eq_none <;> exact fun h => by rw [h] at hkind; cases hkind
  | _ => exact (Table.frame_add hform howner name rfl rfl hid).trans hopen

/-- A function is declared outside of all functions. -/
theorem State.Admits.outside {h : Head} (admits : s.Admits h) : s.function = globalScope :=
  checkFunction_eq_ok admits.checked

/-- Inside of a function the first walk gives its locals one place after the other. -/
theorem Course.frame_function (h : Course T s s') (hform : s.table.WellFormed)
    (hpass : s.pass = .declare) (hinside : s.function ≠ globalScope)
    (hid : s.function < s.table.size)
    (hmethod : ¬ T.IsMethod s.function) {count : Nat}
    (hopen : s.table.frame s.function = .opened count s.localCount) :
    s'.table.frame s.function = .opened count s'.localCount := by
  induction h with
  | refl => exact hopen
  | move h =>
    -- A move that declares takes the next place of the frame, or nothing changes.
    rcases h.calm_or_establishes with calm | established
    · rw [calm.frame hform hid hmethod, calm.localCount]
      exact hopen
    · cases established with
      | one token hpass howner houter new => exact new.frame_function hform howner hid hopen
      | function hpass admits => exact absurd admits.outside hinside
  | @trans s s₁ s₂ h _ ih ih₁ =>
    have hs₁ := ih hform hpass hinside hid hmethod hopen
    have hid₁ := Nat.lt_of_lt_of_le hid h.grows.size_le
    rw [← h.steady.function] at hinside hid₁ hmethod hs₁ ⊢
    exact ih₁ (h.wellFormed hform) (h.steady.pass.trans hpass) hinside hid₁ hmethod hs₁
  | @outside s s₁ h =>
    have hs₁ := Steps.frame h hform hid hmethod
    have hlocals := Steps.localCount h
    rw [← show s₁.localCount = s.localCount from hlocals] at hopen
    exact hs₁.trans hopen
  -- Functions are not declared inside of functions.
  | framed _ admits => exact absurd admits.outside hinside
  | filled hemit => cases hpass.symm.trans hemit

/-- Parameters are numbered in the order in which they are added. -/
theorem frame_parameters {function : Nat} (all : List Parameter) (start : Nat) {t : Table}
    (hform : t.WellFormed) (hid : function < t.size) :
    ((all.zipIdx start).foldl (fun t p =>
      t.add (some function) p.1.name.text (.var (p.1.variable p.2))) t).frame function =
    { t.frame function with parameters := (t.frame function).parameters ++
        (List.range' start all.length).map fun (k : Nat) => .stack k } := by
  induction all generalizing start t with
  | nil => simp
  | cons p all ih =>
    have hform₁ : (t.add (some function) p.name.text (.var (p.variable start))).WellFormed :=
      hform.add hid _ (fun _ hf => by cases hf)
    have hid₁ : function < (t.add (some function) p.name.text (.var (p.variable start))).size := by
      rw [Table.size_add]
      exact Nat.lt_succ_of_lt hid
    -- A parameter is placed among the parameters only.
    have hlocal : (SymbolKind.var (p.variable start)).placeOf? .local = none := rfl
    have hplace : (SymbolKind.var (p.variable start)).placeOf? .parameter = some
        (.stack start) := rfl
    rw [List.zipIdx_cons, List.foldl_cons, ih (start + 1) hform₁ hid₁]
    unfold Table.frame
    simp only [Table.places_add hform hid, if_pos, hlocal, hplace, Table.see_add_of_lt _ _ _ hid,
      List.range'_succ, List.map_cons, Option.toList_none, Option.toList_some, List.append_assoc,
      List.append_nil, List.singleton_append, List.length_cons]

/-- The frame of a new function. -/
theorem frame_introduce_function (admits : s.Admits h) (hform : s.table.WellFormed) :
    (s.introduce h).table.frame s.table.size = .opened h.parameters.length 0 := by
  let s₀ : State := s.declare h.token (functionRole h.modifiers) s.scope h.name
    (.function h.function)
  have hform₀ : s₀.table.WellFormed := hform.add admits.scope h.name fun f hf => by
    cases hf
    simp [Head.function]
  have hid₀ : s.table.size < s₀.table.size := by simp [s₀, State.declare]
  -- At first the function owns nothing.
  have hchildren : s₀.table.children s.table.size = [] := by
    show (s.table.add _ _ _).children _ = _
    rw [Table.children_add admits.scope, if_neg (Nat.ne_of_lt admits.scope), Table.children,
      Table.get?_eq_none (Nat.le_refl _)]
  have hframe₀ : s₀.table.frame s.table.size = ⟨[], [], some (h.parameters.length, 0)⟩ := by
    unfold Table.frame Table.places
    rw [hchildren]
    show Frame.mk [] [] ((s.table.add _ _ _).see _ _) = _
    rw [Table.see_add, if_pos rfl]
    rfl
  have hannotate : Table.Edits (fun _ kind => ∃ value, kind = .metadata value) (fun _ _ => False)
      s₀.table (s₀.annotate s.table.size).table :=
    edits_annotate (fun value => ⟨value, rfl⟩) hid₀
  have hframe : (s₀.annotate s.table.size).table.frame s.table.size =
      s₀.table.frame s.table.size := by
    refine hannotate.frame hform₀ hid₀ ?_ (fun _ _ h => h.elim) fun _ h => h.elim
    rintro _ ⟨value, rfl⟩
    exact ⟨rfl, rfl⟩
  unfold State.introduce
  rw [table_parametrise, frame_parameters h.parameters 0 (hannotate.wellFormed hform₀)
    (Nat.lt_of_lt_of_le hid₀ hannotate.grows.size_le), hframe, hframe₀]
  unfold Frame.opened
  rw [List.range_eq_range', List.range_eq_range']
  rfl

/-! ### All frames -/

/-- A function that is declared where its body opens is laid out. -/
def State.Laid (T : Table) (s : State) : Prop :=
  ∀ d ∈ s.declared, d.role = .function → Opens s.tokens d.token →
    s.table.IsLaid d.symbol ∧ d.symbol < s.table.size ∧ ¬ T.IsMethod d.symbol

/-- Outside of functions nothing is added to a frame. -/
theorem spares_of_outside (h : s.function = globalScope) (id : Nat) : s.Spares id := by
  by_cases hid : id = globalScope
  · exact .inr (.inl hid)
  · exact .inl (h ▸ hid)

theorem State.Laid.of_frame (h : s.Laid T)
    (hdeclared : ∀ d ∈ s'.declared, d.role = .function → d ∈ s.declared)
    (htokens : s'.tokens = s.tokens) (hgrows : s.table.Grows s'.table)
    (hframe : ∀ id, id < s.table.size → ¬ T.IsMethod id → s'.table.frame id = s.table.frame id) :
    s'.Laid T := by
  intro d hd hrole hopens
  rw [htokens] at hopens
  obtain ⟨⟨count, locals, hlaid⟩, hlt, hmethod⟩ := h d (hdeclared d hd hrole) hrole hopens
  exact ⟨⟨count, locals, (hframe _ hlt hmethod).trans hlaid⟩, Nat.lt_of_lt_of_le hlt hgrows.size_le,
    hmethod⟩

theorem Declares.role_ne {name : String} {kind : SymbolKind}
    (h : Declares s role owner name kind s₁) : role ≠ .function := by
  rintro rfl
  cases h with
  | memory hrole => rcases hrole with ⟨h, -⟩ | ⟨h, -⟩ <;> cases h
  | inFrame _ hrole => rcases hrole with h | h | h | h <;> cases h
  | target _ _ hrole => cases hrole

/-- The record of a function among those that come with it. -/
theorem mem_declared_introduce {d : Declared} (hd : d ∈ (s.introduce h).declared)
    (hrole : d.role = .function) : d ∈ s.declared ∨
      d = ⟨h.token, .function, s.table.size, s.function, s.regions⟩ ∧
        h.modifiers.flags.imported = false := by
  obtain ⟨new, hnew, hroles⟩ := declared_introduce h s
  rw [hnew] at hd
  rcases List.mem_append.1 hd with hd | hd
  -- The others are records of parameters.
  · cases (hroles d hd).symm.trans hrole
  · rcases List.mem_cons.1 hd with rfl | hd
    · have hfunction : functionRole h.modifiers = .function := hrole
      rw [hfunction]
      unfold functionRole at hfunction
      split at hfunction
      · cases hfunction
      · next himported => exact .inr ⟨rfl, by simpa using himported⟩
    · exact .inl hd

/-- Inside of a function no other is declared. -/
theorem Course.declared_function (h : Course T s s') (hpass : s.pass = .declare)
    (hinside : s.function ≠ globalScope) {d : Declared} (hd : d ∈ s'.declared)
    (hrole : d.role = .function) : d ∈ s.declared := by
  induction h with
  | refl => exact hd
  -- Of all moves only the head of a function records one, and none stands inside.
  | move h =>
    rcases h.calm_or_establishes with calm | established
    · exact calm.declared ▸ hd
    · cases established with
      | one token hpass howner houter new =>
        rcases List.mem_cons.1 hd with rfl | hold
        · exact absurd hrole new.role_ne
        · exact new.records ▸ hold
      | function hpass admits => exact absurd admits.outside hinside
  | trans h _ ih ih₁ =>
    rw [← h.steady.function] at hinside
    exact ih hpass (h.steady.function ▸ hinside) (ih₁ (h.steady.pass.trans hpass) hinside hd)
  | @outside s s₁ h =>
    have hdeclared := Steps.declared h
    exact hdeclared ▸ hd
  | framed _ admits => exact absurd admits.outside hinside
  | filled hemit => cases hpass.symm.trans hemit

theorem scope?_introduce (h : Head) (s : State) : s.table.size < (s.introduce h).table.size ∧
    (s.introduce h).table.scope? s.table.size = some s.scope := by
  have hgrows := (edits_attached (q := fun _ _ => False) h s).grows
  have hlt : s.table.size < (s.table.add (some s.scope) h.name
      (.function h.function)).size := by simp
  refine ⟨Nat.lt_of_lt_of_le hlt hgrows.size_le, ?_⟩
  rw [hgrows.scope? hlt, Table.scope?_add, if_pos rfl]

/-- A symbol that was added outside of the member scope is no method. -/
theorem not_isMethod_of_scope (hT : T.WellFormed) (h : T.scope? id = some owner)
    (houter : owner ≠ memberScope) : ¬ T.IsMethod id := by
  rintro ⟨-, hmem⟩
  cases h.symm.trans (hT.owned memberScope id hmem)
  exact houter rfl

theorem Move.laid (h : Move T s s') (hform : s.table.WellFormed)
    (houtside : s.function = globalScope)
    (hlaid : s.Laid T) : s'.Laid T := by
  have hframe : ∀ id, id < s.table.size → ¬ T.IsMethod id → s'.table.frame id = s.table.frame id :=
    fun id hid hmethod => h.frame hform hid hmethod (spares_of_outside houtside id)
  have htokens := h.steady.tokens
  have hgrows := h.grows
  rcases h.calm_or_establishes with calm | established
  · exact hlaid.of_frame (fun d hd _ => calm.declared ▸ hd) htokens hgrows hframe
  · cases established with
    | one token hpass howner houter new =>
      refine hlaid.of_frame (fun d hd hrole => ?_) htokens hgrows hframe
      rcases List.mem_cons.1 hd with rfl | hold
      · exact absurd hrole new.role_ne
      · exact new.records ▸ hold
    | @function head hpass admits hbody =>
      -- The new function has no body, or none where it has to be.
      intro d hd hrole hopens
      rw [htokens] at hopens
      rcases mem_declared_introduce hd hrole with hold | ⟨rfl, himported⟩
      · obtain ⟨⟨count, locals, hown⟩, hlt, hmethod⟩ := hlaid d hold hrole hopens
        exact ⟨⟨count, locals, (hframe _ hlt hmethod).trans hown⟩,
          Nat.lt_of_lt_of_le hlt hgrows.size_le, hmethod⟩
      · rcases hbody with h | h
        · cases himported.symm.trans h
        · exact absurd hopens h

/-- The first walk lays out the functions whose bodies it finds. -/
theorem Course.laid (h : Course T s s') (hT : T.WellFormed) (hfinal : s'.table.Grows T)
    (hform : s.table.WellFormed) (hpass : s.pass = .declare) (houtside : s.function = globalScope)
    (hlaid : s.Laid T) : s'.Laid T := by
  induction h with
  | refl => exact hlaid
  | move h => exact h.laid hform houtside hlaid
  | trans h h₁ ih ih₁ =>
    have hs₁ := ih (h₁.grows.trans hfinal) hform hpass houtside hlaid
    exact ih₁ hfinal (h.wellFormed hform) (h.steady.pass.trans hpass)
      (h.steady.function.trans houtside) hs₁
  | @outside s s₁ h =>
    have hdeclared := Steps.declared h
    refine hlaid.of_frame (fun d hd _ => hdeclared ▸ hd) h.steady.tokens h.grows
      fun id hid hmethod => ?_
    have hframe := Steps.frame h hform hid hmethod
    exact hframe
  | @framed s s₁ h _ admits himported body =>
    have whole : Course T s _ := .framed hpass admits himported body
    have hform₀ := (edits_introduce (q := fun _ _ => False) admits).wellFormed hform
    have hpass₀ : (s.introduce h).pass = .declare := (steady_introduce h s).pass.trans hpass
    have hne : s.table.size ≠ globalScope := Nat.ne_of_gt (Nat.zero_lt_of_lt admits.scope)
    obtain ⟨hid, hscope⟩ := scope?_introduce h s
    -- A declared function is not a method, whose parameters the calls fix.
    have hmethod : ¬ T.IsMethod s.table.size := by
      refine not_isMethod_of_scope hT ?_ admits.outer
      rw [((body.grows.trans (keeps_layFrame s₁ s.table.size).table).trans
        hfinal).scope? hid]
      exact hscope
    have hopen := body.frame_function hform₀ hpass₀ hne hid hmethod
      (frame_introduce_function admits hform)
    intro d hd hrole hopens
    rw [whole.steady.tokens] at hopens
    -- What was recorded is from before or is this function.
    rcases mem_declared_introduce (body.declared_function hpass₀ hne hd hrole) hrole with
        hold | ⟨rfl, -⟩
    · obtain ⟨⟨count, locals, hown⟩, hlt, hmethod⟩ := hlaid d hold hrole hopens
      have hframe := whole.frame hform hlt hmethod (spares_of_outside houtside _)
      exact ⟨⟨count, locals, hframe.trans hown⟩, Nat.lt_of_lt_of_le hlt whole.grows.size_le,
        hmethod⟩
    · refine ⟨⟨_, _, Table.frame_layFrame (body.wellFormed hform₀) hopen⟩, ?_, hmethod⟩
      rw [Table.size_layFrame]
      exact Nat.lt_of_lt_of_le hid body.grows.size_le
  | filled hemit => cases hpass.symm.trans hemit

/-! ### Compilations -/

section Walked

variable {flags : Flags} {tokens : List Token} {s t : State}

theorem Walked.stored (h : Walked flags tokens s t) : t.Stored := by
  have hinitial : (State.initial flags tokens).Stored := by
    refine ⟨rfl, fun id kind isStack hsort => ?_⟩
    obtain ⟨k, hk, hsort⟩ := Option.bind_eq_some_iff.1 hsort
    rcases kind?_initialTable hk with ⟨-, rfl⟩ | ⟨-, rfl⟩ <;> cases hsort
  exact (invariant_stored t.table).walked h hinitial

/-- The frame of every function with a body is laid out. -/
theorem Walked.isLaid (h : Walked flags tokens s t) (hid : t.table.IsDefined id) :
    t.table.IsLaid id := by
  have hform : s.table.WellFormed := (keeps_first h.declares).wellFormed wellFormed_initialTable
  rcases h.exists_body hid with rfl | ⟨d, hd, hrole, rfl, hopens⟩
  · -- The code outside of functions has no frame to speak of.
    have hmethod : ¬ t.table.IsMethod globalScope := by
      rintro ⟨-, hmem⟩
      have hroot : t.table.scope? globalScope = none :=
        (h.grows_initial.scope? globalScope_lt).trans (scope?_initialTable globalScope)
      cases hroot.symm.trans (h.wellFormed.owned memberScope globalScope hmem)
    have hlt : globalScope < s.table.size :=
      Nat.lt_of_lt_of_le globalScope_lt h.first.grows.size_le
    have hfirst := h.first.frame wellFormed_initialTable globalScope_lt hmethod (.inr (.inl rfl))
    have hsecond := h.second.frame hform hlt hmethod (.inr (.inl rfl))
    exact ⟨0, 0, hsecond.trans hfirst⟩
  · have hlaid : s.Laid t.table := h.first.laid h.wellFormed (keeps_second h.emits).table
      wellFormed_initialTable rfl rfl nofun
    obtain ⟨⟨count, locals, hown⟩, hlt, hmethod⟩ := hlaid d hd hrole hopens
    have hsecond := h.second.frame hform hlt hmethod (.inr (.inr rfl))
    exact ⟨count, locals, hsecond.trans hown⟩

end Walked

end Walk

end StateScript
