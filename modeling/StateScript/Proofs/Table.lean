import StateScript.Symbol.Table

/-! # Growing symbol tables

  A walk only ever adds symbols to its table and changes some of them in place. Two
  relations say what survives:

  - `Grows`: identifiers, scopes and sorts of symbols stay, lists of children are only
    appended to, and so stays what a function that is in use takes and returns, what a
    variable is to its owner, and what a state is the default for;
  - `WellFormed`: scopes and lists of children are inverse to each other, and a symbol
    comes after its scope.

  The code of a function and the place of a target are views of the kind of a symbol, so
  that one lemma about kinds for each change covers them all.
-/

namespace StateScript

/-! ### Views -/

/-- An instruction without its source position. -/
abbrev Op := Opcode × List Operand

def Instruction.op (i : Instruction) : Op := (i.opcode, i.operands)

namespace SymbolKind

/-- The code of a function so far. -/
def code : SymbolKind → List Op
  | .function f => f.code.toList.map Instruction.op
  | _ => []

/-- The place that a target is bound to. -/
def bound? : SymbolKind → Option Nat
  | .target bound => bound
  | _ => none

end SymbolKind

namespace Table

variable {owner : Nat}

def kind? (t : Table) (id : Nat) : Option SymbolKind := (t.get? id).map Symbol.kind

def function? (t : Table) (id : Nat) : Option Function := (t.kind? id).bind SymbolKind.function?

def var? (t : Table) (id : Nat) : Option Variable := (t.kind? id).bind SymbolKind.var?

def code (t : Table) (id : Nat) : List Op := ((t.kind? id).map SymbolKind.code).getD []

def bound? (t : Table) (id : Nat) : Option Nat := (t.kind? id).bind SymbolKind.bound?

/-- The scope of a symbol. -/
def scope? (t : Table) (id : Nat) : Option Nat := (t.get? id).bind Symbol.scope

variable {t : Table} {id j : Nat}

theorem kind?_eq_some {k : SymbolKind} :
    t.kind? id = some k ↔ ∃ x, t.get? id = some x ∧ x.kind = k :=
  Option.map_eq_some_iff

theorem get?_lt {x : Symbol} (h : t.get? id = some x) : id < t.size :=
  (Array.getElem?_eq_some_iff.1 h).1

theorem get?_eq_none (h : t.size ≤ id) : t.get? id = none := Array.getElem?_eq_none h

theorem exists_get? (h : id < t.size) : ∃ x, t.get? id = some x := ⟨_, Array.getElem?_eq_getElem h⟩

theorem children_of_get? {x : Symbol} (h : t.get? id = some x) : t.children id = x.children := by
  rw [children, h]

/-! ### What a change does to a symbol -/

theorem get?_modify (t : Table) (id j : Nat) (f : Symbol → Symbol) :
    (t.modify id f).get? j = if id = j then (t.get? j).map f else t.get? j := by
  simp only [modify, get?, Array.getElem?_modify]

theorem get?_modifyKind (g : SymbolKind → SymbolKind) :
    (t.modifyKind id g).get? j =
      if id = j then (t.get? j).map fun x => { x with kind := g x.kind } else t.get? j :=
  get?_modify t id j _

@[simp] theorem size_modifyKind (g : SymbolKind → SymbolKind) :
    (t.modifyKind id g).size = t.size :=
  size_modify t id _

@[simp] theorem kind?_modifyKind (g : SymbolKind → SymbolKind) :
    (t.modifyKind id g).kind? j = if id = j then (t.kind? j).map g else t.kind? j := by
  unfold kind?
  rw [get?_modifyKind]
  split <;> cases t.get? j <;> rfl

/-- The symbol that `add` puts at the end. -/
def newcomer (t : Table) (owner : Nat) (name : String) (kind : SymbolKind) : Symbol :=
  { index := (t.children owner).length, identifier := name, scope := some owner, kind }

theorem get?_add (name : String) (kind : SymbolKind) :
    (t.add (some owner) name kind).get? j =
      if j = t.size then some (t.newcomer owner name kind)
      else if owner = j then (t.get? j).map fun x => { x with children := x.children ++ [t.size] }
      else t.get? j := by
  have hsize : (t.modify owner fun x =>
      { x with children := x.children ++ [t.size] }).symbols.size =
      t.size := size_modify t owner _
  rw [← get?_modify t owner j fun x => { x with children := x.children ++ [t.size] }]
  simp only [add, get?, Array.getElem?_push, hsize, newcomer]

theorem kind?_add (name : String) (kind : SymbolKind) :
    (t.add (some owner) name kind).kind? j = if j = t.size then some kind else t.kind? j := by
  unfold kind?
  rw [get?_add]
  split
  · rfl
  · split <;> cases t.get? j <;> rfl

theorem scope?_add (name : String) (kind : SymbolKind) :
    (t.add (some owner) name kind).scope? j = if j = t.size then some owner else t.scope? j := by
  unfold scope?
  rw [get?_add]
  split
  · rfl
  · split <;> cases t.get? j <;> rfl

/-! ### Code and places of targets -/

theorem code_modifyKind {g : SymbolKind → SymbolKind} (hg : ∀ k, (g k).code = k.code) :
    (t.modifyKind id g).code j = t.code j := by
  unfold code
  rw [kind?_modifyKind]
  split
  · cases t.kind? j with
    | none => rfl
    | some k => exact hg k
  · rfl

theorem prefix_code_modifyKind {g : SymbolKind → SymbolKind} (hg : ∀ k, k.code <+: (g k).code) :
    t.code j <+: (t.modifyKind id g).code j := by
  unfold code
  rw [kind?_modifyKind]
  split
  · cases t.kind? j with
    | none => exact List.prefix_rfl
    | some k => exact hg k
  · exact List.prefix_rfl

theorem bound?_modifyKind {g : SymbolKind → SymbolKind} (hg : ∀ k, (g k).bound? = k.bound?) :
    (t.modifyKind id g).bound? j = t.bound? j := by
  unfold bound?
  rw [kind?_modifyKind]
  split
  · cases t.kind? j with
    | none => rfl
    | some k => exact hg k
  · rfl

theorem code_add (name : String) {kind : SymbolKind} (hkind : kind.code = []) :
    (t.add (some owner) name kind).code j = t.code j := by
  unfold code
  rw [kind?_add]
  split
  · next hj =>
    rw [hj, kind?, get?_eq_none (Nat.le_refl _)]
    exact hkind
  · rfl

theorem bound?_add (name : String) {kind : SymbolKind} (hkind : kind.bound? = none) :
    (t.add (some owner) name kind).bound? j = t.bound? j := by
  unfold bound?
  rw [kind?_add]
  split
  · next hj =>
    rw [hj, kind?, get?_eq_none (Nat.le_refl _)]
    exact hkind
  · rfl

/-! ### Growth -/

end Table

def Storage.isStack : Storage → Bool
  | .stack _ => true
  | .memory _ => false

/-- What stays of the kind of a symbol. A method gets its parameters with its first use,
    and a variable on the stack its place once the frame is laid out. -/
structure SymbolKind.Grows (k k' : SymbolKind) : Prop where
  tag : k'.tag = k.tag
  function : ∀ f, k = .function f → ∃ f', k' = .function f' ∧
    f'.returnType = f.returnType ∧ f'.flags = f.flags ∧
      (f.used = true → f'.used = true ∧ f'.parameterTypes = f.parameterTypes)
  var : ∀ v, k = .var v → ∃ v', k' = .var v' ∧
    v'.kind = v.kind ∧ v'.storage.isStack = v.storage.isStack
  state : ∀ engine editor, k = .state engine editor → k' = .state engine editor
  bound : k.bound? ≠ none → k'.bound? ≠ none

theorem SymbolKind.Grows.refl (k : SymbolKind) : k.Grows k :=
  ⟨rfl, fun f hf => ⟨f, hf, rfl, rfl, fun h => ⟨h, rfl⟩⟩, fun v hv => ⟨v, hv, rfl, rfl⟩,
    fun _ _ h => h, id⟩

theorem SymbolKind.Grows.ofFunction {f f' : Function} (hreturn : f'.returnType = f.returnType)
    (hflags : f'.flags = f.flags)
    (hused : f.used = true → f'.used = true ∧ f'.parameterTypes = f.parameterTypes) :
    (SymbolKind.function f).Grows (.function f') := by
  refine ⟨rfl, ?_, by rintro _ ⟨⟩, by rintro _ _ ⟨⟩, id⟩
  rintro _ ⟨⟩
  exact ⟨f', rfl, hreturn, hflags, hused⟩

theorem SymbolKind.Grows.ofVar {v v' : Variable} (hkind : v'.kind = v.kind)
    (hstack : v'.storage.isStack = v.storage.isStack) : (SymbolKind.var v).Grows (.var v') := by
  refine ⟨rfl, by rintro _ ⟨⟩, ?_, by rintro _ _ ⟨⟩, id⟩
  rintro _ ⟨⟩
  exact ⟨v', rfl, hkind, hstack⟩

theorem SymbolKind.Grows.ofTarget (bound : Option Nat) (place : Nat) :
    (SymbolKind.target bound).Grows (.target (some place)) :=
  ⟨rfl, by rintro _ ⟨⟩, by rintro _ ⟨⟩, by rintro _ _ ⟨⟩, fun _ => Option.some_ne_none _⟩

theorem SymbolKind.Grows.trans {k k' k'' : SymbolKind} (h : k.Grows k') (h' : k'.Grows k'') :
    k.Grows k'' where
  tag := h'.tag.trans h.tag
  function f hf := by
    obtain ⟨f', hf', hr, hfl, hu⟩ := h.function f hf
    obtain ⟨f'', hf'', hr', hfl', hu'⟩ := h'.function f' hf'
    refine ⟨f'', hf'', hr'.trans hr, hfl'.trans hfl, fun hused => ?_⟩
    obtain ⟨hused', hp⟩ := hu hused
    obtain ⟨hused'', hp'⟩ := hu' hused'
    exact ⟨hused'', hp'.trans hp⟩
  var v hv := by
    obtain ⟨v', hv', hkind, hstack⟩ := h.var v hv
    obtain ⟨v'', hv'', hkind', hstack'⟩ := h'.var v' hv'
    exact ⟨v'', hv'', hkind'.trans hkind, hstack'.trans hstack⟩
  state engine editor hk := h'.state engine editor (h.state engine editor hk)
  bound hb := h'.bound (h.bound hb)

/-- What stays of a symbol. -/
structure Symbol.Grows (x x' : Symbol) : Prop where
  identifier : x'.identifier = x.identifier
  scope : x'.scope = x.scope
  children : x.children <+: x'.children
  kind : x.kind.Grows x'.kind

theorem Symbol.Grows.refl (x : Symbol) : x.Grows x :=
  ⟨rfl, rfl, List.prefix_rfl, .refl _⟩

theorem Symbol.Grows.trans {x x' x'' : Symbol} (h : x.Grows x') (h' : x'.Grows x'') :
    x.Grows x'' :=
  ⟨h'.identifier.trans h.identifier, h'.scope.trans h.scope, h.children.trans h'.children,
    h.kind.trans h'.kind⟩

namespace Table

variable {g : SymbolKind → SymbolKind}

/-- Every symbol is still there. -/
def Grows (t t' : Table) : Prop :=
  ∀ id x, t.get? id = some x → ∃ x', t'.get? id = some x' ∧ x.Grows x'

theorem Grows.refl (t : Table) : t.Grows t := fun _ x h => ⟨x, h, .refl x⟩

theorem Grows.trans {t t' t'' : Table} (h : t.Grows t') (h' : t'.Grows t'') : t.Grows t'' := by
  intro id x hx
  obtain ⟨x', hx', g⟩ := h id x hx
  obtain ⟨x'', hx'', g'⟩ := h' id x' hx'
  exact ⟨x'', hx'', g.trans g'⟩

variable {t t' : Table} {id : Nat}

theorem Grows.size_le (h : t.Grows t') : t.size ≤ t'.size := by
  by_cases hs : t.size = 0
  · omega
  · obtain ⟨x, hx⟩ := exists_get? (show t.size - 1 < t.size by omega)
    obtain ⟨x', hx', -⟩ := h _ x hx
    have := get?_lt hx'
    omega

theorem Grows.scope? (h : t.Grows t') (hid : id < t.size) : t'.scope? id = t.scope? id := by
  obtain ⟨x, hx⟩ := exists_get? hid
  obtain ⟨x', hx', g⟩ := h id x hx
  simp only [Table.scope?, hx, hx', Option.bind_some, g.scope]

theorem Grows.exists_kind (h : t.Grows t') (hkind : ∃ k, t.kind? id = some k) :
    ∃ k, t'.kind? id = some k := by
  obtain ⟨k, hk⟩ := hkind
  obtain ⟨x, hx, -⟩ := kind?_eq_some.1 hk
  obtain ⟨x', hx', -⟩ := h id x hx
  exact ⟨x'.kind, kind?_eq_some.2 ⟨x', hx', rfl⟩⟩

theorem function?_eq_some {f : Function} :
    t.function? id = some f ↔ t.kind? id = some (.function f) := by
  unfold function?
  cases t.kind? id with
  | none => simp
  | some k => cases k <;> simp [SymbolKind.function?]

/-- A function keeps its flags. -/
theorem Grows.function? {f : Function} (h : t.Grows t') (hf : t.function? id = some f) :
    ∃ f', t'.function? id = some f' ∧ f'.flags = f.flags := by
  obtain ⟨x, hx, hkind⟩ := kind?_eq_some.1 (function?_eq_some.1 hf)
  obtain ⟨x', hx', g⟩ := h id x hx
  obtain ⟨f', hf', -, hflags, -⟩ := g.kind.function f hkind
  exact ⟨f', function?_eq_some.2 (kind?_eq_some.2 ⟨x', hx', hf'⟩), hflags⟩

theorem grows_modifyKind (h : ∀ k, t.kind? id = some k → k.Grows (g k)) :
    t.Grows (t.modifyKind id g) := by
  intro j x hx
  rw [get?_modifyKind]
  split
  · next hj =>
    subst hj
    refine ⟨{ x with kind := g x.kind }, by rw [hx]; rfl, rfl, rfl, List.prefix_rfl, ?_⟩
    exact h x.kind (kind?_eq_some.2 ⟨x, hx, rfl⟩)
  · exact ⟨x, hx, .refl x⟩

theorem grows_add (owner : Nat) (name : String) (kind : SymbolKind) :
    t.Grows (t.add (some owner) name kind) := by
  intro j x hx
  have hj := get?_lt hx
  rw [get?_add, if_neg (by omega)]
  split
  · exact ⟨{ x with children := x.children ++ [t.size] }, by rw [hx]; rfl, rfl, rfl,
      List.prefix_append .., .refl _⟩
  · exact ⟨x, hx, .refl x⟩

theorem var?_eq_some {v : Variable} : t.var? id = some v ↔ t.kind? id = some (.var v) := by
  unfold var?
  cases t.kind? id with
  | none => simp
  | some k => cases k <;> simp [SymbolKind.var?]

/-! ### Form -/

theorem scope?_modify {f : Symbol → Symbol} (hf : ∀ x, (f x).scope = x.scope) (j : Nat) :
    (t.modify id f).scope? j = t.scope? j := by
  unfold Table.scope?
  rw [get?_modify]
  split
  · cases t.get? j with
    | none => rfl
    | some x => exact hf x
  · rfl

theorem children_modify {f : Symbol → Symbol} (hf : ∀ x, (f x).children = x.children) (j : Nat) :
    (t.modify id f).children j = t.children j := by
  unfold children
  rw [get?_modify]
  by_cases hj : id = j
  · rw [if_pos hj]
    cases t.get? j with
    | none => rfl
    | some x => exact hf x
  · rw [if_neg hj]

theorem scope?_modifyKind (g : SymbolKind → SymbolKind) (j : Nat) :
    (t.modifyKind id g).scope? j = t.scope? j :=
  scope?_modify (f := fun x => { x with kind := g x.kind }) (fun _ => rfl) j

theorem children_modifyKind (g : SymbolKind → SymbolKind) (j : Nat) :
    (t.modifyKind id g).children j = t.children j :=
  children_modify (f := fun x => { x with kind := g x.kind }) (fun _ => rfl) j

theorem children_add {owner : Nat} (howner : owner < t.size) (name : String) (kind : SymbolKind)
    (j : Nat) : (t.add (some owner) name kind).children j =
      if owner = j then t.children j ++ [t.size] else t.children j := by
  unfold children
  rw [get?_add]
  by_cases hnew : j = t.size
  -- The new symbol owns nothing yet.
  · rw [if_pos hnew, if_neg (by omega), get?_eq_none (by omega)]
    rfl
  · rw [if_neg hnew]
    by_cases hj : owner = j
    · obtain ⟨x, hx⟩ := exists_get? howner
      subst hj
      rw [if_pos rfl, if_pos rfl, hx]
      rfl
    · rw [if_neg hj, if_neg hj]

/-- Scopes and lists of children are inverse to each other, and owners come first. -/
structure Forest (t : Table) : Prop where
  scope_lt : ∀ id p, t.scope? id = some p → p < id
  /-- The index of a symbol is its place among the children of its owner. -/
  place : ∀ id x p, t.get? id = some x → x.scope = some p → (t.children p)[x.index]? = some id
  owned : ∀ p c, c ∈ t.children p → t.scope? c = some p
  nodup : ∀ p, (t.children p).Nodup

theorem scope?_eq_none_of_size_le {j : Nat} (h : t.size ≤ j) : t.scope? j = none := by
  rw [Table.scope?, get?_eq_none h]
  rfl

theorem lt_of_scope? {p : Nat} (h : t.scope? id = some p) : id < t.size := by
  apply Decidable.byContradiction
  intro hge
  rw [scope?_eq_none_of_size_le (Nat.le_of_not_lt hge)] at h
  cases h

theorem Forest.listed (h : t.Forest) (id p : Nat) (hp : t.scope? id = some p) :
    id ∈ t.children p := by
  obtain ⟨x, hx, hscope⟩ := Option.bind_eq_some_iff.1 hp
  exact List.mem_of_getElem? (h.place id x p hx hscope)

theorem Forest.lt_of_mem_children (h : t.Forest) {p c : Nat} (hc : c ∈ t.children p) : c < t.size :=
  lt_of_scope? (h.owned p c hc)

theorem forest_empty : empty.Forest := by
  have hget : ∀ id, empty.get? id = none := fun _ => rfl
  refine ⟨fun id p h => ?_, fun id x p hx => ?_, fun p c h => ?_, fun p => ?_⟩
  · rw [Table.scope?, hget] at h
    cases h
  · rw [hget] at hx
    cases hx
  · rw [children, hget] at h
    cases h
  · rw [children, hget]
    exact .nil

/-- Changing something else of a symbol. -/
theorem Forest.modify (h : t.Forest) (id : Nat) {f : Symbol → Symbol}
    (hf : ∀ x, (f x).index = x.index ∧ (f x).scope = x.scope ∧ (f x).children = x.children) :
    (t.modify id f).Forest := by
  have hget : ∀ j x', (t.modify id f).get? j = some x' → ∃ x, t.get? j = some x ∧
      x'.index = x.index ∧ x'.scope = x.scope := by
    intro j x' hx'
    rw [get?_modify] at hx'
    split at hx'
    · obtain ⟨x, hx, rfl⟩ := Option.map_eq_some_iff.1 hx'
      exact ⟨x, hx, (hf x).1, (hf x).2.1⟩
    · exact ⟨x', hx', rfl, rfl⟩
  -- Owners and what they own are left alone.
  have hscope : ∀ j, (t.modify id f).scope? j = t.scope? j := scope?_modify fun x => (hf x).2.1
  have hchildren : ∀ j, (t.modify id f).children j = t.children j :=
    children_modify fun x => (hf x).2.2
  refine ⟨fun j p => ?_, fun j x' p hx' hp => ?_, fun p c => ?_, fun p => ?_⟩
  · rw [hscope]
    exact h.scope_lt j p
  · obtain ⟨x, hx, hindex, hp'⟩ := hget j x' hx'
    rw [hchildren, hindex]
    exact h.place j x p hx (hp' ▸ hp)
  · rw [hscope, hchildren]
    exact h.owned p c
  · rw [hchildren]
    exact h.nodup p

/-- A new root. -/
theorem Forest.addRoot (h : t.Forest) (name : String) (kind : SymbolKind) :
    (t.add none name kind).Forest := by
  have hget : ∀ j, (t.add none name kind).get? j =
      if j = t.size then some { identifier := name, kind } else t.get? j :=
    fun j => Array.getElem?_push
  have hscope : ∀ j, (t.add none name kind).scope? j = t.scope? j := by
    intro j
    rw [Table.scope?, hget]
    split
    · next hj => rw [scope?_eq_none_of_size_le (Nat.le_of_eq hj.symm)]; rfl
    · rfl
  have hchildren : ∀ j, (t.add none name kind).children j = t.children j := by
    intro j
    unfold children
    rw [hget]
    by_cases hj : j = t.size
    · rw [if_pos hj, get?_eq_none (Nat.le_of_eq hj.symm)]
    · rw [if_neg hj]
  -- All owners and children are those from before.
  refine ⟨fun j p => ?_, fun j x p hx hp => ?_, fun p c => ?_, fun p => ?_⟩
  · rw [hscope]
    exact h.scope_lt j p
  · rw [hchildren]
    rw [hget] at hx
    split at hx
    · cases hx
      cases hp
    · exact h.place j x p hx hp
  · rw [hscope, hchildren]
    exact h.owned p c
  · rw [hchildren]
    exact h.nodup p

/-- A new symbol behind the other children of its owner. -/
theorem Forest.add (h : t.Forest) {owner : Nat} (howner : owner < t.size) (name : String)
    (kind : SymbolKind) : (t.add (some owner) name kind).Forest where
  scope_lt j p := by
    rw [scope?_add]
    split
    · next hj =>
      rintro ⟨⟩
      omega
    · exact h.scope_lt j p
  place j x p hx hp := by
    rw [children_add howner]
    rw [get?_add] at hx
    -- Other symbols stand where they did among the children.
    have hold : ∀ x', t.get? j = some x' → x'.scope = some p →
        (if owner = p then t.children p ++ [t.size]
        else t.children p)[x'.index]? = some j := by
      intro x' hx' hp'
      have hplace := h.place j x' p hx' hp'
      split
      · rw [List.getElem?_append_left (List.getElem?_eq_some_iff.1 hplace).1, hplace]
      · exact hplace
    split at hx
    · next hj =>
      cases hx
      cases hp
      rw [if_pos rfl, hj]
      exact List.getElem?_concat_length ..
    · split at hx
      · obtain ⟨x', hx', rfl⟩ := Option.map_eq_some_iff.1 hx
        exact hold x' hx' hp
      · exact hold x hx hp
  -- The new symbol is the one child that is not from before.
  owned p c := by
    rw [scope?_add, children_add howner]
    intro hc
    have hold : c ∈ t.children p → (if c = t.size then some owner else t.scope? c) = some p :=
      fun hc => by
      rw [if_neg (Nat.ne_of_lt (h.lt_of_mem_children hc))]
      exact h.owned p c hc
    split at hc
    · next hp =>
      rcases List.mem_append.1 hc with hc | hc
      · exact hold hc
      · rw [if_pos (List.mem_singleton.1 hc), hp]
    · exact hold hc
  nodup p := by
    rw [children_add howner]
    split
    · refine List.nodup_append.2 ⟨h.nodup p, by simp, ?_⟩
      intro c hc d hd
      rw [List.mem_singleton] at hd
      have := h.lt_of_mem_children hc
      omega
    · exact h.nodup p

/-- Forests in which only the first two symbols have no owner, and the parameters of a function
    are counted right. -/
structure WellFormed (t : Table) : Prop extends t.Forest where
  root : ∀ id, id < t.size → t.scope? id = none → id ≤ 1
  counts : ∀ id f, t.function? id = some f → f.parameterCount = f.parameterTypes.length

theorem WellFormed.modifyKind (h : t.WellFormed) (hg : ∀ k f, t.kind? id = some k → g k = .function
      f → f.parameterCount = f.parameterTypes.length) : (t.modifyKind id g).WellFormed where
  toForest := h.toForest.modify id (f := fun x => { x with kind := g x.kind }) fun _ =>
    ⟨rfl, rfl, rfl⟩
  root j := by
    rw [scope?_modifyKind, size_modifyKind]
    exact h.root j
  counts j f hf := by
    rw [function?, kind?_modifyKind] at hf
    split at hf
    · next hj =>
      subst hj
      obtain ⟨k, hk, hkf⟩ := Option.bind_eq_some_iff.1 hf
      obtain ⟨k', hk', rfl⟩ := Option.map_eq_some_iff.1 hk
      refine hg k' f hk' ?_
      cases hgk : g k' with
      | function f' =>
        rw [hgk] at hkf
        cases hkf
        rfl
      | _ =>
        rw [hgk] at hkf
        cases hkf
    · exact h.counts j f hf

theorem WellFormed.add (h : t.WellFormed) {owner : Nat} (howner : owner < t.size) (name : String)
    {kind : SymbolKind}
    (hkind : ∀ f, kind = .function f → f.parameterCount = f.parameterTypes.length) :
    (t.add (some owner) name kind).WellFormed where
  toForest := h.toForest.add howner name kind
  root j hj := by
    rw [scope?_add]
    rw [size_add] at hj
    split
    · rintro ⟨⟩
    · exact h.root j (by omega)
  counts j f hf := by
    rw [function?, kind?_add] at hf
    split at hf
    · apply hkind
      cases kind with
      | function f' =>
        cases hf
        rfl
      | _ => cases hf
    · exact h.counts j f hf

end Table

end StateScript
