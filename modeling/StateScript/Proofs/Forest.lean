import StateScript.Proofs.Linking

/-! # Tables as forests

  However a table was put together, its symbols form trees: a new symbol gets the last place
  among the children of its owner, and another identifier moves nothing. The traversal with a
  list of what is still to be visited lists the trees as a recursive one does. The qualified
  name of a symbol spells the way to it from its root, and keeps doing so once the symbols
  were numbered in the order of the traversal.
-/

namespace StateScript

/-! ### Ways from a root -/

/-- The identifiers from a root, which is left out, down to a symbol. -/
inductive Ancestry (lookup : Nat → Option (String × Option Nat)) : Nat → List String → Prop
  | root {id : Nat} {name : String} (found : lookup id = some (name, none)) : Ancestry lookup id []
  | child {id owner : Nat} {name : String} {names : List String}
      (found : lookup id = some (name, some owner)) (above : Ancestry lookup owner names) :
      Ancestry lookup id (names ++ [name])

/-- Where owners come first, as many steps as there are symbols up to the last are enough. -/
theorem scopePath_eq {lookup : Nat → Option (String × Option Nat)} {id steps : Nat}
    {names : List String}
    (hfirst : ∀ id name owner, lookup id = some (name, some owner) → owner < id)
    (h : Ancestry lookup id names) (hsteps : id < steps) : scopePath lookup steps id = names := by
  induction h generalizing steps with
  | root found =>
    cases steps with
    | zero => omega
    | succ steps => rw [scopePath, found]
  | child found above ih =>
    cases steps with
    | zero => omega
    | succ steps =>
      have hlt := hfirst _ _ _ found
      rw [scopePath, found]
      exact congrArg (· ++ [_]) (ih (by omega))

namespace Table

variable {t : Table} {id owner : Nat} {name : String} {ids order rest roots : List Nat}

theorem lookup_eq_some {scope : Option Nat} : t.lookup id = some (name, scope) ↔
    ∃ x, t.get? id = some x ∧ x.identifier = name ∧ x.scope = scope := by
  unfold lookup
  cases t.get? id with
  | none => simp
  | some x => simp

theorem scope?_of_lookup {scope : Option Nat} (h : t.lookup id = some (name, scope)) :
    t.scope? id = scope := by
  obtain ⟨x, hx, -, hscope⟩ := lookup_eq_some.1 h
  rw [scope?, hx, Option.bind_some, hscope]

theorem Forest.exists_ancestry (h : t.Forest) (hid : id < t.size) :
    ∃ names, Ancestry t.lookup id names := by
  induction id using Nat.strongRecOn with
  | _ id ih =>
    obtain ⟨x, hx⟩ := exists_get? hid
    cases hscope : x.scope with
    | none => exact ⟨[], .root (lookup_eq_some.2 ⟨x, hx, rfl, hscope⟩)⟩
    | some owner =>
      have hfound := lookup_eq_some.2 ⟨x, hx, rfl, hscope⟩
      have hlt := h.scope_lt id owner (scope?_of_lookup hfound)
      obtain ⟨names, habove⟩ := ih owner hlt (Nat.lt_trans hlt hid)
      exact ⟨names ++ [x.identifier], .child hfound habove⟩

theorem Forest.qualifiedName_eq (h : t.Forest) {names : List String}
    (hnames : Ancestry t.lookup id names)
    (hid : id < t.size) : t.qualifiedName id = String.intercalate "." names := by
  unfold qualifiedName StateScript.qualifiedName
  rw [scopePath_eq (fun id name owner hfound =>
    h.scope_lt id owner (scope?_of_lookup hfound)) hnames hid]

/-! ### Recursive traversal -/

/-- What a recursive traversal of some trees lists: the first root, then all that is below it,
    and then the other trees. -/
inductive Flattens (t : Table) : List Nat → List Nat → Prop
  | nil : Flattens t [] []
  | cons {id : Nat} {rest inner outer : List Nat} (below : Flattens t (t.children id) inner)
      (behind : Flattens t rest outer) : Flattens t (id :: rest) (id :: inner ++ outer)

theorem visit_nil (t : Table) (steps : Nat) : t.visit steps [] = [] := by
  cases steps <;> rfl

/-- The traversal with a list of what is still to be visited starts with the same symbols. -/
theorem Flattens.visit (h : t.Flattens ids order) (steps : Nat) (rest : List Nat) :
    t.visit (order.length + steps) (ids ++ rest) = order ++ t.visit steps rest := by
  induction h generalizing steps rest with
  | nil => simp
  | @cons id behind inner outer _ _ ihbelow ihbehind =>
    have hsteps : (id :: inner ++ outer).length + steps = inner.length +
        (outer.length + steps) + 1 := by
      simp only [List.cons_append, List.length_cons, List.length_append]
      omega
    rw [hsteps, List.cons_append, Table.visit, ihbelow, ihbehind]
    simp

theorem exists_flattens_of_below (hbelow : ∀ id ∈ ids, ∃ inner, t.Flattens (t.children id) inner) :
    ∃ order, t.Flattens ids order := by
  induction ids with
  | nil => exact ⟨[], .nil⟩
  | cons id ids ih =>
    rw [List.forall_mem_cons] at hbelow
    obtain ⟨inner, hinner⟩ := hbelow.1
    obtain ⟨outer, houter⟩ := ih hbelow.2
    exact ⟨_, .cons hinner houter⟩

/-- The recursion comes to an end, since children have larger ids. -/
theorem Forest.exists_flattens (h : t.Forest) (ids : List Nat) : ∃ order, t.Flattens ids order := by
  refine exists_flattens_of_below fun id hid => ?_
  clear hid
  induction hn : t.size - id using Nat.strongRecOn generalizing id with
  | _ n ih =>
    refine exists_flattens_of_below fun c hc => ih (t.size - c) ?_ c rfl
    have hlt := h.scope_lt c id (h.owned id c hc)
    have hsize := h.lt_of_mem_children hc
    omega

/-- The traversal from all roots lists what the recursive one lists. -/
theorem Forest.flattens_preorder (h : t.Forest) (hroots : roots.Perm t.roots) :
    t.Flattens roots (t.preorder roots) := by
  obtain ⟨order, horder⟩ := h.exists_flattens roots
  have hvisit : ∀ steps, t.visit (order.length + steps) roots = order := by
    intro steps
    have hall := horder.visit steps []
    rwa [List.append_nil, visit_nil, List.append_nil] at hall
  -- No symbol is listed twice, so that the steps are enough.
  have hlength : order.length ≤ t.size := by
    have hend := (traversal_roots hroots).visit h (order.length + t.size) (by simp)
    rw [hvisit] at hend
    simpa using hend.length_le
  have hsteps := h.size_le_mul hroots
  have henough : roots.length * t.size = order.length +
      (roots.length * t.size - order.length) := by omega
  rw [preorder, henough, hvisit]
  exact horder

/-! ### Numbered symbols -/

section Numbered

open Walk

variable (h : t.Forest) (hroots : roots.Perm t.roots) {o : Object}
  (ho : o.symbols = (Layout.ofOrder t (t.preorder roots)).symbols t)

include h hroots ho

theorem Forest.lookup_idxOf (hid : id < t.size) : o.lookup ((t.preorder roots).idxOf id) =
    (t.lookup id).map fun x => (x.1, x.2.map (t.preorder roots).idxOf) := by
  have hget := List.getElem?_idxOf ((h.mem_preorder hroots).2 hid)
  obtain ⟨x, hx⟩ := exists_get? hid
  -- Owners are numbered as all symbols are.
  have hscope : x.scope.map (Layout.ofOrder t (t.preorder roots)).number =
      x.scope.map (t.preorder roots).idxOf := by
    cases howner : x.scope with
    | none => rfl
    | some owner =>
      have hlt := h.scope_lt id owner (by rw [scope?, hx, Option.bind_some, howner])
      exact congrArg some (number_ofOrder (h.nodup_preorder hroots) (h.mem_preorder hroots)
        (Nat.lt_trans hlt hid))
  rw [Object.lookup, ho, getElem?_symbols_ofOrder (h.mem_preorder hroots), hget, Option.bind_some,
    Layout.entryOf, hx, lookup, hx]
  simp only [Option.map_some, hscope]

/-- The way to a symbol spells the same with the numbers. -/
theorem Forest.ancestry_idxOf {names : List String} (hnames : Ancestry t.lookup id names) :
    Ancestry o.lookup ((t.preorder roots).idxOf id) names := by
  have hlt : ∀ {id name scope}, t.lookup id = some (name, scope) → id < t.size := by
    intro id name scope hfound
    obtain ⟨x, hx, -⟩ := lookup_eq_some.1 hfound
    exact get?_lt hx
  induction hnames with
  | root found => exact .root (by rw [h.lookup_idxOf hroots ho (hlt found), found]; rfl)
  | child found _ ih => exact .child (by rw [h.lookup_idxOf hroots ho (hlt found), found]; rfl) ih

theorem Forest.exists_idxOf {n : Nat} {x : String × Option Nat} (hx : o.lookup n = some x) :
    ∃ id, id < t.size ∧ n = (t.preorder roots).idxOf id := by
  rw [Object.lookup, ho, getElem?_symbols_ofOrder (h.mem_preorder hroots)] at hx
  obtain ⟨e, he, -⟩ := Option.map_eq_some_iff.1 hx
  obtain ⟨id, hid, -⟩ := Option.bind_eq_some_iff.1 he
  refine ⟨id, (h.mem_preorder hroots).1 (List.mem_of_getElem? hid), ?_⟩
  obtain ⟨hn, rfl⟩ := List.getElem?_eq_some_iff.1 hid
  rw [(h.nodup_preorder hroots).idxOf_getElem]

/-- Owners get smaller numbers. -/
theorem Forest.lt_of_lookup {n m : Nat} (hn : o.lookup n = some (name, some m)) : m < n := by
  obtain ⟨id, hid, rfl⟩ := h.exists_idxOf hroots ho hn
  rw [h.lookup_idxOf hroots ho hid] at hn
  obtain ⟨x, hx, hm⟩ := Option.map_eq_some_iff.1 hn
  obtain ⟨owner, howner, rfl⟩ := Option.map_eq_some_iff.1 (congrArg Prod.snd hm)
  exact h.idxOf_preorder_lt hroots (scope?_of_lookup (hx.trans (by rw [← howner])))

theorem Forest.qualifiedName_idxOf {names : List String} (hnames : Ancestry t.lookup id names)
    (hid : id < t.size) :
    o.qualifiedName ((t.preorder roots).idxOf id) = String.intercalate "." names := by
  have hlt : (t.preorder roots).idxOf id < o.symbols.length := by
    have hfound := h.lookup_idxOf hroots ho hid
    obtain ⟨x, hx⟩ := exists_get? hid
    rw [lookup, hx] at hfound
    obtain ⟨e, he, -⟩ := Option.map_eq_some_iff.1 hfound
    exact (List.getElem?_eq_some_iff.1 he).1
  unfold Object.qualifiedName StateScript.qualifiedName
  rw [scopePath_eq (fun n name m hn => h.lt_of_lookup hroots ho hn)
    (h.ancestry_idxOf hroots ho hnames) hlt]

end Numbered

/-! ### Tables that are put together -/

/-- Tables made by adding symbols below those that are there, and by giving symbols other
    identifiers. -/
inductive Built : Table → Prop
  | empty : Built .empty
  | add {t : Table} {scope : Option Nat} (built : Built t)
      (known : ∀ owner, scope = some owner → owner < t.size)
      (name : String) (kind : SymbolKind) : Built (t.add scope name kind)
  | rename {t : Table} (built : Built t) (id : Nat) (name : String) : Built (t.rename id name)

theorem Built.forest (h : t.Built) : t.Forest := by
  induction h with
  | empty => exact forest_empty
  | @add t scope _ known name kind ih =>
    cases scope with
    | none => exact ih.addRoot name kind
    | some owner => exact ih.add (known owner rfl) name kind
  | rename _ id name ih => exact ih.modify id fun _ => ⟨rfl, rfl, rfl⟩

/-- Whatever was added and renamed, the symbols form trees, the traversal lists them as a
    recursive one does, and numbering them in this order changes no qualified name. -/
theorem Built.flattened (h : t.Built) (hroots : roots.Perm t.roots) :
    t.Forest ∧ t.Flattens roots (t.preorder roots) ∧ (t.preorder roots).Perm (List.range t.size) ∧
      (∀ id owner, t.scope? id = some owner →
        (t.preorder roots).idxOf owner < (t.preorder roots).idxOf id) ∧
      ∀ id < t.size, ∃ names, Ancestry t.lookup id names ∧
        t.qualifiedName id = String.intercalate "." names ∧
        ∀ o : Object, o.symbols = (Walk.Layout.ofOrder t (t.preorder roots)).symbols t →
          o.qualifiedName ((t.preorder roots).idxOf id) = String.intercalate "." names := by
  have hform := h.forest
  refine ⟨hform, hform.flattens_preorder hroots, hform.preorder_perm hroots,
    fun id owner hscope => hform.idxOf_preorder_lt hroots hscope, fun id hid => ?_⟩
  obtain ⟨names, hnames⟩ := hform.exists_ancestry hid
  exact ⟨names, hnames, hform.qualifiedName_eq hnames hid,
    fun o ho => hform.qualifiedName_idxOf hroots ho hnames hid⟩

/-- Two trees, the second in the midst of the first, with a symbol that was renamed. -/
def twoTrees : Table :=
  ((((((empty.add none "a" .space).add (some 0) "b" .space).add none "c" .space).add
    (some 1) "d" .text).add
    (some 2) "e" .text).add (some 0) "f" .text).rename 1 "g"

theorem flattened_twoTrees :
    twoTrees.roots = [0, 2] ∧ twoTrees.preorder [2, 0] = [2, 4, 0, 1, 3, 5] ∧
    twoTrees.qualifiedName 3 = "g.d" ∧
    ∀ o : Object, o.symbols = (Walk.Layout.ofOrder twoTrees [2, 4, 0, 1, 3, 5]).symbols twoTrees →
      o.qualifiedName 4 = "g.d" := by
  have hbuilt : twoTrees.Built :=
    .rename (.add
      (.add (.add (.add (.add (.add .empty (by simp) _ _) (by decide) _ _) (by simp) _ _)
      (by decide) _ _) (by decide) _ _) (by decide) _ _) _ _
  have hroots : twoTrees.roots = [0, 2] := by decide
  have horder : twoTrees.preorder [2, 0] = [2, 4, 0, 1, 3, 5] := by decide
  have hname : twoTrees.qualifiedName 3 = "g.d" := by decide
  have hperm : [2, 0].Perm twoTrees.roots := by
    rw [hroots]
    exact .swap ..
  obtain ⟨-, -, -, -, hnames⟩ := hbuilt.flattened hperm
  obtain ⟨names, -, htable, hobject⟩ := hnames 3 (by decide)
  rw [horder] at hobject
  refine ⟨hroots, horder, hname, fun o ho => ?_⟩
  exact (hobject o ho).trans (htable.symm.trans hname)

end Table

end StateScript
