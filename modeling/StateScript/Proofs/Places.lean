import Mathlib.Data.List.Perm.Basic
import StateScript.Proofs.Table
import StateScript.Walk.Frame

/-! # Places of variables

  The places of variables are views of a symbol table, and each change of a table is
  described by what it does to them. The slots of memory are listed in the order of the
  symbols; the frame of a function is made of the places of its locals and its parameters,
  each in the order in which the function owns them, and of how many there are.

  While a function is declared, its locals and its parameters are numbered from zero
  (`Frame.opened`); at its end `layFrame` gives them their offsets (`Frame.laid`).
-/

namespace StateScript

def Storage.memory? : Storage → Option Int
  | .memory i => some i
  | .stack _ => none

namespace SymbolKind

/-- What a variable is to its owner, and where it lives. -/
def place? : SymbolKind → Option (VariableKind × Storage)
  | .var v => some (v.kind, v.storage)
  | _ => none

/-- Where a variable of a kind lives. -/
def placeOf? (kind : VariableKind) (k : SymbolKind) : Option Storage :=
  k.place?.bind fun p => if p.1 = kind then some p.2 else none

/-- The slot of memory that a variable takes. -/
def slot? (k : SymbolKind) : Option Int := k.place?.bind fun p => p.2.memory?

/-- What a variable is to its owner, and whether it lives on the stack. -/
def sort? (k : SymbolKind) : Option (VariableKind × Bool) :=
  k.place?.map fun p => (p.1, p.2.isStack)

/-- How many parameters and locals a function has. -/
def extent? : SymbolKind → Option (Nat × Nat)
  | .function f => some (f.parameterCount, f.frameSize)
  | _ => none

theorem placeOf?_eq_none {v : Variable} {kind : VariableKind} (h : v.kind ≠ kind) :
    (var v).placeOf? kind = none :=
  if_neg h

theorem placeOf?_eq_some {v : Variable} {kind : VariableKind} {storage : Storage}
    (h : v.kind = kind)
    (hstorage : v.storage = storage) : (var v).placeOf? kind = some storage := by
  rw [← hstorage]
  exact if_pos h

end SymbolKind

/-- What the frame of a function is made of. -/
structure Frame where
  locals : List Storage
  parameters : List Storage
  /-- How many parameters there are, and how many locals the frame holds. -/
  extent : Option (Nat × Nat)

/-- A frame while the function is declared. -/
def Frame.opened (count locals : Nat) : Frame where
  locals := (List.range locals).map fun (i : Nat) => .stack i
  parameters := (List.range count).map fun (k : Nat) => .stack k
  extent := some (count, 0)

/-- A frame with offsets: the locals right below the frame register, two slots of the
    machine, and the parameters, the last on top. -/
def Frame.laid (count locals : Nat) : Frame where
  locals := (List.range locals).map fun (i : Nat) => .stack (i - locals)
  parameters := (List.range count).map fun (k : Nat) =>
    .stack (-(locals + 2 + (count - 1 - k : Int)))
  extent := some (count, locals)

namespace Table

variable {owner : Nat}

/-- A view of the kind of a symbol. -/
def see {α : Type} (t : Table) (view : SymbolKind → Option α) (id : Nat) : Option α :=
  (t.kind? id).bind view

/-- The places of the variables of a kind that a symbol owns, in order. -/
def places (t : Table) (kind : VariableKind) (owner : Nat) : List Storage :=
  (t.children owner).filterMap (t.see (SymbolKind.placeOf? kind))

/-- The slots of memory that are taken, in the order of the symbols. -/
def slots (t : Table) : List Int := (List.range t.size).filterMap (t.see SymbolKind.slot?)

def frame (t : Table) (id : Nat) : Frame where
  locals := t.places .local id
  parameters := t.places .parameter id
  extent := t.see SymbolKind.extent? id

/-- What lives in memory is what has to live there. -/
def Sorted (t : Table) : Prop :=
  ∀ id kind isStack, t.see SymbolKind.sort? id = some (kind, isStack) → isStack = !kind.usesMemory

/-- The frame of a function is laid out. -/
def IsLaid (t : Table) (id : Nat) : Prop := ∃ count locals, t.frame id = .laid count locals

variable {α : Type} {t : Table} {id j : Nat}

/-! ### New symbols -/

theorem see_add (name : String) (kind : SymbolKind) (view : SymbolKind → Option α) :
    (t.add (some owner) name kind).see view j = if j = t.size then view kind else t.see view j := by
  unfold see
  rw [kind?_add]
  split <;> rfl

theorem see_add_of_lt (name : String) (kind : SymbolKind) (view : SymbolKind → Option α)
    (h : j < t.size) : (t.add (some owner) name kind).see view j = t.see view j := by
  rw [see_add, if_neg (Nat.ne_of_lt h)]

theorem see_eq_none (view : SymbolKind → Option α) (h : t.size ≤ id) : t.see view id = none := by
  unfold see kind?
  rw [get?_eq_none h]
  rfl

theorem lt_of_see {view : SymbolKind → Option α} {a : α} (h : t.see view id = some a) :
    id < t.size := by
  apply Decidable.byContradiction
  intro hge
  rw [see_eq_none view (Nat.le_of_not_lt hge)] at h
  cases h

theorem filterMap_new (name : String) (kind : SymbolKind) (view : SymbolKind → Option α) :
    [t.size].filterMap ((t.add (some owner) name kind).see view) = (view kind).toList := by
  rw [List.filterMap_cons, see_add, if_pos rfl]
  cases view kind <;> rfl

theorem slots_add (name : String) (kind : SymbolKind) :
    (t.add (some owner) name kind).slots = t.slots ++ kind.slot?.toList := by
  unfold slots
  rw [size_add, List.range_succ, List.filterMap_append]
  congr 1
  · refine List.filterMap_congr fun j hj => ?_
    exact see_add_of_lt name kind _ (List.mem_range.1 hj)
  · exact filterMap_new name kind _

theorem places_add (h : t.WellFormed) (howner : owner < t.size) (name : String) (kind : SymbolKind)
    (k : VariableKind) :
    (t.add (some owner) name kind).places k id =
      if owner = id then t.places k id ++ (kind.placeOf? k).toList else t.places k id := by
  have hold : (t.children id).filterMap
      ((t.add (some owner) name kind).see (SymbolKind.placeOf? k)) =
      t.places k id :=
    List.filterMap_congr fun c hc => see_add_of_lt name kind _ (h.lt_of_mem_children hc)
  unfold places at hold ⊢
  rw [children_add howner]
  split
  · rw [List.filterMap_append, hold, filterMap_new]
  · exact hold

theorem frame_add_of_ne (h : t.WellFormed) (howner : owner < t.size) (name : String)
    (kind : SymbolKind) (hne : owner ≠ id) (hid : id < t.size) :
    (t.add (some owner) name kind).frame id = t.frame id := by
  unfold frame
  rw [places_add h howner, places_add h howner, if_neg hne, if_neg hne,
    see_add_of_lt name kind _ hid]

/-- A symbol that is no variable of a frame. -/
theorem frame_add (h : t.WellFormed) (howner : owner < t.size) (name : String) {kind : SymbolKind}
    (hlocal : kind.placeOf? .local = none) (hparameter : kind.placeOf? .parameter = none)
    (hid : id < t.size) : (t.add (some owner) name kind).frame id = t.frame id := by
  unfold frame
  rw [places_add h howner, places_add h howner, hlocal, hparameter, see_add_of_lt name kind _ hid]
  simp

/-- The next local. -/
theorem frame_add_local (h : t.WellFormed) (hid : id < t.size) (name : String) {v : Variable}
    {count locals : Nat} (hkind : v.kind = .local) (hstorage : v.storage = .stack locals)
    (hopen : t.frame id = .opened count locals) :
    (t.add (some id) name (.var v)).frame id = .opened count (locals + 1) := by
  obtain ⟨hlocals, hparameters, hextent⟩ := Frame.mk.inj hopen
  have hnone : (SymbolKind.var v).placeOf? .parameter = none :=
    SymbolKind.placeOf?_eq_none (by rw [hkind]; exact nofun)
  unfold frame
  rw [places_add h hid, places_add h hid, if_pos rfl, if_pos rfl, see_add_of_lt name _ _ hid,
    SymbolKind.placeOf?_eq_some hkind hstorage, hnone, hlocals, hparameters, hextent]
  unfold Frame.opened
  rw [List.range_succ, List.map_append, Option.toList_none, List.append_nil]
  rfl

theorem Sorted.add (h : t.Sorted) {owner : Nat} (name : String) {kind : SymbolKind}
    (hkind : ∀ v, kind = .var v → v.storage.isStack = !v.kind.usesMemory) :
    (t.add (some owner) name kind).Sorted := by
  intro j k isStack hsort
  rw [see_add] at hsort
  split at hsort
  · cases kind with
    | var v =>
      cases hsort
      exact hkind v rfl
    | _ => cases hsort
  · exact h j k isStack hsort

/-! ### Changes that leave places alone -/

theorem see_modifyKind {g : SymbolKind → SymbolKind} {view : SymbolKind → Option α}
    (h : ∀ k, view (g k) = view k) : (t.modifyKind id g).see view j = t.see view j := by
  unfold see
  rw [kind?_modifyKind]
  split
  · cases t.kind? j with
    | none => rfl
    | some k => exact h k
  · rfl

theorem see_modifyKind_of_ne (g : SymbolKind → SymbolKind) (view : SymbolKind → Option α)
    (h : id ≠ j) : (t.modifyKind id g).see view j = t.see view j := by
  unfold see
  rw [kind?_modifyKind, if_neg h]

section Still

variable {g : SymbolKind → SymbolKind} (hg : ∀ k, (g k).place? = k.place?)
include hg

theorem slots_modifyKind : (t.modifyKind id g).slots = t.slots := by
  unfold slots
  rw [size_modifyKind]
  refine List.filterMap_congr fun j _ => see_modifyKind fun k => ?_
  unfold SymbolKind.slot?
  rw [hg]

theorem places_modifyKind (k : VariableKind) : (t.modifyKind id g).places k j = t.places k j := by
  unfold places
  rw [children_modifyKind]
  refine List.filterMap_congr fun c _ => see_modifyKind fun kind => ?_
  unfold SymbolKind.placeOf?
  rw [hg]

theorem frame_modifyKind (hextent : id = j → ∀ k, (g k).extent? = k.extent?) :
    (t.modifyKind id g).frame j = t.frame j := by
  unfold frame
  rw [places_modifyKind hg, places_modifyKind hg]
  congr 1
  by_cases hj : id = j
  · exact see_modifyKind (hextent hj)
  · exact see_modifyKind_of_ne g _ hj

theorem Sorted.modifyKind (h : t.Sorted) : (t.modifyKind id g).Sorted := by
  intro j k isStack hsort
  have hsame : ∀ k, (g k).sort? = k.sort? := fun k => by rw [SymbolKind.sort?, hg]; rfl
  rw [see_modifyKind hsame] at hsort
  exact h j k isStack hsort

end Still

/-! ### Laying out a frame -/

section Laying

open Walk

theorem children_foldl_modifyKind (g : Nat → SymbolKind → SymbolKind) (ids : List Nat) (t : Table) :
    (ids.foldl (fun t id => t.modifyKind id (g id)) t).children j = t.children j := by
  induction ids generalizing t with
  | nil => rfl
  | cons id ids ih => rw [List.foldl_cons, ih, children_modifyKind]

theorem kind?_foldl_modifyKind (g : Nat → SymbolKind → SymbolKind) {ids : List Nat} (h : ids.Nodup)
    (t : Table) : (ids.foldl (fun t id => t.modifyKind id (g id)) t).kind? j =
      if j ∈ ids then (t.kind? j).map (g j) else t.kind? j := by
  induction ids generalizing t with
  | nil => rfl
  | cons id ids ih =>
    rw [List.nodup_cons] at h
    rw [List.foldl_cons, ih h.2, kind?_modifyKind]
    by_cases hj : id = j
    · subst hj
      simp [h.1]
    · have hne : ¬ j = id := fun e => hj e.symm
      simp [hj, hne]

/-- The parameters of a function, in order. -/
def parametersOf (t : Table) (function : Nat) : List Nat :=
  (t.children function).filter (isParameter t)

/-- What laying out a frame makes of a variable of the function. -/
def placedIn (t : Table) (function locals id : Nat) (k : SymbolKind) : SymbolKind :=
  let parameters := t.parametersOf function
  k.mapVariable fun v =>
    { v with storage := frameStorage locals parameters.length (parameters.idxOf id) v }

/-- What laying out a frame makes of the function. -/
def sized (locals : Nat) (k : SymbolKind) : SymbolKind :=
  k.mapFunction fun f => { f with frameSize := locals }

theorem layFrame_eq (t : Table) (function locals : Nat) : layFrame t function locals =
    ((t.children function).foldl (fun t' id => t'.modifyKind id (t.placedIn function locals id))
      t).modifyKind function (sized locals) :=
  rfl

variable {function locals : Nat}

theorem children_layFrame : (layFrame t function locals).children j = t.children j := by
  rw [layFrame_eq, children_modifyKind, children_foldl_modifyKind]

theorem kind?_layFrame (h : t.WellFormed) : (layFrame t function locals).kind? j =
    if j = function then (t.kind? j).map (sized locals)
    else if j ∈ t.children function then (t.kind? j).map (t.placedIn function locals j)
    else t.kind? j := by
  rw [layFrame_eq, kind?_modifyKind, kind?_foldl_modifyKind _ (h.nodup function)]
  by_cases hj : j = function
  · -- No symbol owns itself.
    subst hj
    have hself : j ∉ t.children j := fun hmem => Nat.lt_irrefl j (h.scope_lt j j (h.owned j j hmem))
    simp [hself]
  · have hne : ¬ function = j := fun e => hj e.symm
    simp [hj, hne]

theorem see_layFrame (h : t.WellFormed) {view : SymbolKind → Option α}
    (hsized : j = function → ∀ k, view (sized locals k) = view k)
    (hplaced : j ∈ t.children function → ∀ k, view (t.placedIn function locals j k) = view k) :
    (layFrame t function locals).see view j = t.see view j := by
  unfold see
  rw [kind?_layFrame h]
  split
  · next hj =>
    cases t.kind? j with
    | none => rfl
    | some k => exact hsized hj k
  · split
    · next hmem =>
      cases t.kind? j with
      | none => rfl
      | some k => exact hplaced hmem k
    · rfl

theorem place?_sized (locals : Nat) (k : SymbolKind) : (sized locals k).place? = k.place? := by
  cases k <;> rfl

theorem size_layFrame : (layFrame t function locals).size = t.size := by
  have each : ∀ (ids : List Nat) (g : Nat → SymbolKind → SymbolKind) (t : Table),
      (ids.foldl (fun t id => t.modifyKind id (g id)) t).size = t.size := by
    intro ids g
    induction ids with
    | nil => exact fun _ => rfl
    | cons id ids ih =>
      intro t
      rw [List.foldl_cons, ih, size_modifyKind]
  rw [layFrame_eq, size_modifyKind, each]

/-- What lives in memory stays where it is. -/
theorem slots_layFrame (h : t.WellFormed) : (layFrame t function locals).slots = t.slots := by
  unfold slots
  rw [size_layFrame]
  refine List.filterMap_congr fun j _ => see_layFrame h (fun _ k => ?_) fun _ k => ?_
  · exact congrArg (fun p : Option (VariableKind × Storage) => p.bind fun p => p.2.memory?)
      (place?_sized locals k)
  · cases k with
    | var v =>
      rcases v with ⟨kind, type, _, _, storage, _, _, _⟩
      cases kind <;> cases storage <;> rfl
    | _ => rfl

theorem Sorted.layFrame (hsorted : t.Sorted) (h : t.WellFormed) :
    (layFrame t function locals).Sorted := by
  intro j k isStack hsort
  have hsized : ∀ k, (sized locals k).sort? = k.sort? :=
    fun k => by rw [SymbolKind.sort?, place?_sized]; rfl
  rw [see_layFrame h (fun _ => hsized) fun _ k => ?_] at hsort
  · exact hsorted j k isStack hsort
  · cases k with
    | var v =>
      rcases v with ⟨kind, type, _, _, storage, _, _, _⟩
      cases kind <;> cases storage <;> rfl
    | _ => rfl

theorem extent?_placedIn (id : Nat) (k : SymbolKind) :
    (t.placedIn function locals id k).extent? = k.extent? := by
  cases k <;> rfl

/-- The frames of all other functions stay. -/
theorem frame_layFrame_of_ne (h : t.WellFormed) (hj : j ≠ function) :
    (layFrame t function locals).frame j = t.frame j := by
  have hplaces : ∀ k, (layFrame t function locals).places k j = t.places k j := by
    intro k
    unfold places
    rw [children_layFrame]
    refine List.filterMap_congr fun c hc => see_layFrame h (fun _ kind => ?_) fun hmem => ?_
    · unfold SymbolKind.placeOf?
      rw [place?_sized]
    · -- A symbol has one owner.
      cases (h.owned j c hc).symm.trans (h.owned function c hmem)
      exact absurd rfl hj
  unfold frame
  rw [hplaces, hplaces, see_layFrame h (fun e => absurd e hj) fun _ k => extent?_placedIn j k]

theorem see_layFrame_of_mem (h : t.WellFormed) {c : Nat} (hc : c ∈ t.children function)
    (view : SymbolKind → Option α) : (layFrame t function locals).see view c =
      t.see (fun k => view (t.placedIn function locals c k)) c := by
  have hne : c ≠ function := Nat.ne_of_gt (h.scope_lt c function (h.owned function c hc))
  unfold see
  rw [kind?_layFrame h, if_neg hne, if_pos hc]
  cases t.kind? c <;> rfl

/-- Where a local goes. -/
def belowRegister (locals : Nat) : Storage → Storage
  | .stack ordinal => .stack (ordinal - locals)
  | storage => storage

theorem places_local_layFrame (h : t.WellFormed) :
    (layFrame t function locals).places .local function =
      (t.places .local function).map (belowRegister locals) := by
  unfold places
  rw [children_layFrame, List.map_filterMap]
  refine List.filterMap_congr fun c hc => ?_
  rw [see_layFrame_of_mem h hc]
  unfold see
  cases t.kind? c with
  | none => rfl
  | some k =>
    cases k with
    | var v =>
      rcases v with ⟨kind, type, _, _, storage, _, _, _⟩
      cases kind <;> cases storage <;> rfl
    | _ => rfl

theorem isParameter_eq (t : Table) (c : Nat) :
    isParameter t c = (t.see (SymbolKind.placeOf? .parameter) c).isSome := by
  unfold isParameter see kind?
  cases t.get? c with
  | none => rfl
  | some x =>
    cases hk : x.kind with
    | var v =>
      rcases v with ⟨kind, type, _, _, storage, _, _, _⟩
      cases kind <;> simp [hk, SymbolKind.var?, SymbolKind.placeOf?, SymbolKind.place?]
    | _ => simp [hk, SymbolKind.var?, SymbolKind.placeOf?, SymbolKind.place?]

theorem length_parametersOf (t : Table) (function : Nat) :
    (t.parametersOf function).length = (t.places .parameter function).length := by
  unfold parametersOf places
  rw [List.length_filterMap_eq_countP, List.countP_eq_length_filter]
  congr 1
  exact List.filter_congr fun c _ => isParameter_eq t c

/-- Where a parameter goes. -/
def belowLocals (locals count place : Nat) : Storage :=
  .stack (-(locals + 2 + (count - 1 - place : Int)))

theorem placeOf?_parameter_placedIn {k : SymbolKind}
    (hstack : ∀ storage, k.placeOf? .parameter = some storage → storage.isStack = true) (c : Nat) :
    (t.placedIn function locals c k).placeOf? .parameter =
      if (k.placeOf? .parameter).isSome then
        some (belowLocals locals (t.parametersOf function).length
          ((t.parametersOf function).idxOf c))
      else none := by
  cases k with
  | var v =>
    rcases v with ⟨kind, type, _, _, storage, _, _, _⟩
    cases kind with
    | parameter =>
      cases storage with
      | stack i => rfl
      | memory i => cases hstack (.memory i) rfl
    | _ => rfl
  | _ => rfl

/-- Parameters on the stack go below the locals, the last on top. -/
theorem places_parameter_layFrame (h : t.WellFormed)
    (hstack : ∀ storage ∈ t.places .parameter function, storage.isStack = true) :
    (layFrame t function locals).places .parameter function =
      (t.parametersOf function).map fun c =>
        belowLocals locals (t.parametersOf function).length
          ((t.parametersOf function).idxOf c) := by
  generalize hoffset : (fun c => belowLocals locals (t.parametersOf function).length
    ((t.parametersOf function).idxOf c)) = offset
  unfold places at hstack ⊢
  rw [children_layFrame]
  show _ = ((t.children function).filter (isParameter t)).map offset
  rw [← List.filterMap_eq_map, List.filterMap_filter]
  refine List.filterMap_congr fun c hc => ?_
  have hown : ∀ storage, t.see (SymbolKind.placeOf? .parameter) c = some storage →
      storage.isStack = true :=
    fun storage hsee => hstack storage (List.mem_filterMap.2 ⟨c, hc, hsee⟩)
  rw [see_layFrame_of_mem h hc, isParameter_eq, Function.comp_apply, ← hoffset]
  unfold see at hown ⊢
  cases hk : t.kind? c with
  | none => rfl
  | some k =>
    rw [hk] at hown
    exact placeOf?_parameter_placedIn hown c

/-- Numbering the members of a list. -/
theorem map_idxOf {l : List Nat} (h : l.Nodup) (f : Nat → α) :
    (l.map fun c => f (l.idxOf c)) = (List.range l.length).map f := by
  refine List.ext_getElem (by simp) fun i hi hi' => ?_
  simp [h.idxOf_getElem]

theorem frame_layFrame (h : t.WellFormed) {count : Nat}
    (hopen : t.frame function = .opened count locals) :
    (layFrame t function locals).frame function = .laid count locals := by
  obtain ⟨hlocals, hparameters, hextent⟩ := Frame.mk.inj hopen
  -- All parameters have been placed on the stack while the frame was open.
  have hstack : ∀ storage ∈ t.places .parameter function, storage.isStack = true := by
    rw [hparameters]
    intro storage hmem
    obtain ⟨k, -, rfl⟩ := List.mem_map.1 hmem
    rfl
  have hcount : (t.parametersOf function).length = count := by
    rw [length_parametersOf, hparameters]
    simp
  unfold frame Frame.laid
  congr 1
  · rw [places_local_layFrame h, hlocals, List.map_map]
    rfl
  -- Parameters go below the locals, in the order in which they are declared.
  · rw [places_parameter_layFrame h hstack, hcount]
    have hnodup : (t.parametersOf function).Nodup := (h.nodup function).filter _
    rw [map_idxOf hnodup (belowLocals locals count), hcount]
    rfl
  · unfold see at hextent ⊢
    rw [kind?_layFrame h, if_pos rfl]
    cases hk : t.kind? function with
    | none =>
      rw [hk] at hextent
      cases hextent
    | some k =>
      rw [hk] at hextent
      cases k with
      | function f =>
        have hcounts : (f.parameterCount, f.frameSize) = (count, 0) := Option.some.inj hextent
        rw [← (Prod.mk.inj hcounts).1]
        rfl
      | _ => cases hextent

end Laying

end Table

end StateScript
