import StateScript.Proofs.Walk.Records

/-! # Names

  Symbols of one owner may share a name only if something else tells them apart. What that
  is depends on what the name is used for: a text is told apart by nothing, what is reached
  through `->` by its type, a function by the types of its parameters. In the scopes in
  which a script declares things by name, a name stands for one variable, state,
  enumeration or namespace; only a state is declared without a look at the other three.

  A symbol is made after a search for its name came back empty. `Welcomes` says what the
  search has to exclude for each usage, and every move of a walk is an addition that is
  welcome or an alteration that changes no usage.
-/

namespace StateScript

variable {k : SymbolKind}

/-- What a name is used for, as far as it decides whether the name may be used again. -/
inductive Usage where
  | text
  /-- A variable that is reached through `->`. -/
  | member (type : ValueType)
  /-- A function that is reached through `->`. -/
  | method (returnType : ValueType)
  | function (types : List ValueType)
  | parameter
  | variable
  | state
  | enumeration
  | space
  | other
deriving DecidableEq

namespace Usage

/-- Usages that a name has at most once within a scope. -/
def isUnique : Usage → Bool
  | .text | .member _ | .method _ | .function _ | .parameter => true
  | _ => false

/-- Usages of symbols that a script declares things in, functions apart. -/
def isScope : Usage → Bool
  | .state | .enumeration | .space => true
  | _ => false

/-- Usages that exclude each other. -/
def isExclusive : Usage → Bool
  | .member _ | .parameter | .variable | .state | .enumeration | .space => true
  | _ => false

end Usage

def SymbolKind.usage : SymbolKind → Usage
  | .var v =>
    match v.kind with
    | .member => .member v.type
    | .parameter => .parameter
    | _ => .variable
  | .function f => if f.flags.method then .method f.returnType else .function f.parameterTypes
  | .state _ _ => .state
  | .enumeration => .enumeration
  | .space => .space
  | .text => .text
  | .metadata _ | .target _ => .other

theorem SymbolKind.isExclusive_usage (k : SymbolKind) : k.usage.isExclusive = k.isExclusive := by
  cases k with
  | var v => cases hv : v.kind <;> simp [usage, hv, isExclusive, Usage.isExclusive]
  | function f => cases hf : f.flags.method <;> simp [usage, hf, isExclusive, Usage.isExclusive]
  | _ => rfl

theorem SymbolKind.usage_eq_state_iff : k.usage = .state ↔ k.isState = true := by
  cases k with
  | var v => cases hv : v.kind <;> simp [usage, hv, isState]
  | function f => cases hf : f.flags.method <;> simp [usage, hf, isState]
  | _ => simp [usage, isState]

theorem SymbolKind.usage_eq_text_iff : k.usage = .text ↔ k = .text := by
  cases k with
  | var v => cases hv : v.kind <;> simp [usage, hv]
  | function f => cases hf : f.flags.method <;> simp [usage, hf]
  | _ => simp [usage]

/-- What excludes other declarations is a variable or owns declarations. -/
theorem SymbolKind.var?_of_isExclusive (h : k.usage.isExclusive = true)
    (hscope : k.usage.isScope = false) : k.var?.isSome = true := by
  rw [isExclusive_usage] at h
  cases k with
  | var v => rfl
  | state | enumeration | space => cases hscope
  | _ => cases h

theorem SymbolKind.usage_var {v : Variable} (hmember : v.kind ≠ .member)
    (hparameter : v.kind ≠ .parameter) :
    (var v).usage = .variable := by
  cases hv : v.kind with
  | member => exact absurd hv hmember
  | parameter => exact absurd hv hparameter
  | _ => simp [usage, hv]

namespace Table

variable {t t' : Table} {owner id : Nat} {name : String} {kind : SymbolKind}

/-! ### Names and usages of symbols -/

def name? (t : Table) (id : Nat) : Option String := (t.get? id).map Symbol.identifier

def usage? (t : Table) (id : Nat) : Option Usage := t.see (fun k => some k.usage) id

theorem usage?_eq_some {u : Usage} :
    t.usage? id = some u ↔ ∃ k, t.kind? id = some k ∧ k.usage = u := by
  unfold usage? see
  cases t.kind? id <;> simp

theorem usage?_of_kind? {k : SymbolKind} (h : t.kind? id = some k) : t.usage? id = some k.usage :=
  usage?_eq_some.2 ⟨k, h, rfl⟩

theorem usage?_add {j : Nat} : (t.add (some owner) name kind).usage? j =
    if j = t.size then some kind.usage else t.usage? j :=
  see_add ..

theorem name?_add {j : Nat} : (t.add (some owner) name kind).name? j =
    if j = t.size then some name else t.name? j := by
  unfold name?
  rw [get?_add]
  split
  · rfl
  · split <;> cases t.get? j <;> rfl

theorem name?_modifyKind (g : SymbolKind → SymbolKind) (j : Nat) :
    (t.modifyKind id g).name? j = t.name? j := by
  unfold name?
  rw [get?_modifyKind]
  split <;> cases t.get? j <;> rfl

theorem Grows.name? (h : t.Grows t') (hid : id < t.size) : t'.name? id = t.name? id := by
  obtain ⟨x, hx⟩ := exists_get? hid
  obtain ⟨x', hx', g⟩ := h id x hx
  simp only [Table.name?, hx, hx', Option.map_some, g.identifier]

theorem usage?_modifyKind {g : SymbolKind → SymbolKind}
    (hg : ∀ k, t.kind? id = some k → (g k).usage = k.usage) (j : Nat) :
    (t.modifyKind id g).usage? j = t.usage? j := by
  unfold usage? see
  rw [kind?_modifyKind]
  split
  · next hj =>
    subst hj
    cases hk : t.kind? id with
    | none => rfl
    | some k => exact congrArg some (hg k hk)
  · rfl

/-! ### Which names are shared -/

/-- Scopes in which a script declares things by name: the global scope, namespaces, states
    and enumerations. -/
def IsOpen (t : Table) (owner : Nat) : Prop :=
  owner = Walk.globalScope ∨
    owner ≠ Walk.memberScope ∧ ∃ u, t.usage? owner = some u ∧ u.isScope = true

/-- Two symbols of one owner and one name, the older one first. -/
structure Namesakes (t : Table) (owner i j : Nat) : Prop where
  lt : i < j
  first : t.scope? i = some owner
  second : t.scope? j = some owner
  name : t.name? i = t.name? j

end Table

/-- What an owner may use names for. -/
def Usage.Fits (t : Table) (owner : Nat) : Usage → Prop
  | .text => owner = Walk.globalScope
  | .member _ | .method _ => owner = Walk.memberScope
  | .parameter | .variable => owner ≠ Walk.memberScope
  | .function types => owner ≠ Walk.memberScope ∧ ∀ type ∈ types, type.primitive ≠ .void
  | .state | .enumeration | .space => t.usage? owner ≠ some .enumeration
  | .other => True

namespace Table

variable {t t' : Table} {owner id : Nat} {name : String} {kind : SymbolKind} {i : Nat} {u : Usage}

/-- Names are told apart. -/
structure Named (t : Table) : Prop where
  unique : ∀ owner i j u, t.Namesakes owner i j → u.isUnique = true → t.usage? i = some u →
    t.usage? j ≠ some u
  /-- Where a name is used again, it is the name of a state and was none of a state. -/
  exclusive : ∀ owner i j u v, t.Namesakes owner i j → t.IsOpen owner → t.usage? i = some u →
    t.usage? j = some v → u.isExclusive = true → v.isExclusive = true → v = .state ∧ u ≠ .state
  fits : ∀ id owner u, t.scope? id = some owner → t.usage? id = some u → u.Fits t owner
  /-- Older symbols come first. -/
  sorted : ∀ owner, (t.children owner).Pairwise (· < ·)
  global : t.usage? Walk.globalScope = some (.function [])
  member : t.usage? Walk.memberScope = some .space

theorem Usage.Fits.congr (h : u.Fits t owner) (husage : t'.usage? owner = t.usage? owner) :
    u.Fits t' owner := by
  cases u with
  | state | enumeration | space =>
    show t'.usage? owner ≠ _
    rw [husage]
    exact h
  | _ => exact h

theorem IsOpen.congr (h : t'.IsOpen owner) (husage : t'.usage? owner = t.usage? owner) :
    t.IsOpen owner := by
  unfold IsOpen at h
  rwa [husage] at h

/-- Alterations that change no usage. -/
theorem Named.congr (h : t.Named) (hscope : ∀ id, t'.scope? id = t.scope? id)
    (hname : ∀ id, t'.name? id = t.name? id) (husage : ∀ id, t'.usage? id = t.usage? id)
    (hchildren : ∀ id, t'.children id = t.children id) : t'.Named := by
  have hsame : ∀ owner i j, t'.Namesakes owner i j → t.Namesakes owner i j := by
    intro owner i j hij
    exact ⟨hij.lt, hscope i ▸ hij.first, hscope j ▸ hij.second, hname i ▸ hname j ▸ hij.name⟩
  constructor
  · intro owner i j u hij hunique hi
    rw [husage] at hi ⊢
    exact h.unique owner i j u (hsame owner i j hij) hunique hi
  · intro owner i j u v hij hopen hi hj
    rw [husage] at hi hj
    exact h.exclusive owner i j u v (hsame owner i j hij) (hopen.congr (husage owner)) hi hj
  · intro id owner u hid hu
    rw [hscope] at hid
    rw [husage] at hu
    exact Usage.Fits.congr (h.fits id owner u hid hu) (husage owner)
  · intro owner
    rw [hchildren]
    exact h.sorted owner
  · rw [husage]
    exact h.global
  · rw [husage]
    exact h.member

theorem Named.modifyKind (h : t.Named) {g : SymbolKind → SymbolKind}
    (hg : ∀ k, t.kind? id = some k → (g k).usage = k.usage) : (t.modifyKind id g).Named :=
  h.congr (scope?_modifyKind g) (name?_modifyKind g) (usage?_modifyKind hg) (children_modifyKind g)

/-! ### New names -/

/-- A symbol that may be added. -/
structure Welcomes (t : Table) (owner : Nat) (name : String) (kind : SymbolKind) : Prop where
  unique : kind.usage.isUnique = true → ∀ i, t.scope? i = some owner → t.name? i = some name →
    t.usage? i ≠ some kind.usage
  exclusive : kind.usage.isExclusive = true → t.IsOpen owner → ∀ i u, t.scope? i = some owner →
    t.name? i = some name → t.usage? i = some u → u.isExclusive = true →
    kind.usage = .state ∧ u ≠ .state
  fits : kind.usage.Fits t owner

/-- Namesakes after an addition: they were there before, or the new symbol is the second. -/
theorem Namesakes.of_add {p j : Nat} (h : (t.add (some owner) name kind).Namesakes p i j) :
    (i ≠ t.size ∧ j ≠ t.size ∧ t.Namesakes p i j) ∨
      (i ≠ t.size ∧ j = t.size ∧ p = owner ∧ t.scope? i = some owner ∧ t.name? i = some name) := by
  have hj := lt_of_scope? h.second
  rw [size_add] at hj
  have hlt := h.lt
  -- The earlier of two namesakes is not the new one.
  have hi : i ≠ t.size := by omega
  have hfirst := h.first
  have hsecond := h.second
  have hname := h.name
  rw [scope?_add, if_neg hi] at hfirst
  rw [name?_add, if_neg hi, name?_add] at hname
  rw [scope?_add] at hsecond
  by_cases hnew : j = t.size
  · rw [if_pos hnew] at hsecond hname
    cases hsecond
    exact .inr ⟨hi, hnew, rfl, hfirst, hname⟩
  · rw [if_neg hnew] at hsecond hname
    exact .inl ⟨hi, hnew, hlt, hfirst, hsecond, hname⟩

theorem Named.add (h : t.Named) (hform : t.WellFormed) (howner : owner < t.size)
    (hnew : t.Welcomes owner name kind) : (t.add (some owner) name kind).Named := by
  -- Owners come before what they own, so that their usage is as it was.
  have hold : ∀ p, p < t.size → (t.add (some owner) name kind).usage? p = t.usage? p := by
    intro p hp
    rw [usage?_add, if_neg (Nat.ne_of_lt hp)]
  have howns : ∀ i p, t.scope? i = some p → p < t.size := by
    intro i p hp
    exact Nat.lt_trans (hform.scope_lt i p hp) (lt_of_scope? hp)
  constructor
  · intro p i j u hij hunique hi
    rcases hij.of_add with ⟨hine, hjne, hbefore⟩ | ⟨hine, rfl, rfl, hscope, hname⟩
    · rw [usage?_add, if_neg hine] at hi
      rw [usage?_add, if_neg hjne]
      exact h.unique p i j u hbefore hunique hi
    · rw [usage?_add, if_neg hine] at hi
      rw [usage?_add, if_pos rfl]
      rintro ⟨⟩
      exact hnew.unique hunique i hscope hname hi
  · intro p i j u v hij hopen hi hj hu hv
    rcases hij.of_add with ⟨hine, hjne, hbefore⟩ | ⟨hine, rfl, rfl, hscope, hname⟩
    · rw [usage?_add, if_neg hine] at hi
      rw [usage?_add, if_neg hjne] at hj
      exact h.exclusive p i j u v hbefore
        (hopen.congr (hold p (howns i p hbefore.first))) hi hj hu hv
    · rw [usage?_add, if_neg hine] at hi
      rw [usage?_add, if_pos rfl] at hj
      cases hj
      exact hnew.exclusive hv (hopen.congr (hold p howner)) i u hscope hname hi hu
  · intro id p u hid hu
    rw [scope?_add] at hid
    rw [usage?_add] at hu
    split at hid
    · next hj =>
      rw [if_pos hj] at hu
      cases hid
      cases hu
      exact Usage.Fits.congr hnew.fits (hold owner howner)
    · next hj =>
      rw [if_neg hj] at hu
      exact Usage.Fits.congr (h.fits id p u hid hu) (hold p (howns id p hid))
  · intro p
    rw [children_add howner]
    split
    · refine List.pairwise_append.2 ⟨h.sorted p, List.pairwise_singleton .., fun c hc d hd => ?_⟩
      rw [List.mem_singleton.1 hd]
      exact hform.lt_of_mem_children hc
    · exact h.sorted p
  · rw [hold _ (lt_of_see h.global)]
    exact h.global
  · rw [hold _ (lt_of_see h.member)]
    exact h.member

/-- What a search in vain excludes. -/
theorem exists_of_find?_eq_none {filter : Symbol → Bool} (h : t.find? owner name filter = none)
    (hform : t.WellFormed) (hscope : t.scope? i = some owner) (hname : t.name? i = some name)
    (hu : t.usage? i = some u) : ∃ x : Symbol, x.kind.usage = u ∧ filter x = false := by
  obtain ⟨k, hk, rfl⟩ := usage?_eq_some.1 hu
  obtain ⟨x, hx, rfl⟩ := kind?_eq_some.1 hk
  refine ⟨x, rfl, ?_⟩
  have hmatch := List.find?_eq_none.1 h i (hform.listed i owner hscope)
  unfold name? at hname
  rw [hx] at hname
  have hidentifier : x.identifier = name := Option.some.inj hname
  simpa [isMatch, hx, hidentifier] using hmatch

/-- Symbols without a usage of their own. -/
theorem welcomes_other (h : kind.usage = .other) : t.Welcomes owner name kind := by
  constructor
  · rw [h]
    exact nofun
  · rw [h]
    exact nofun
  · rw [h]
    trivial

/-- Variables of functions and enumerations, and what else excludes other declarations. -/
theorem welcomes_exclusive (hunique : kind.usage.isUnique = false) (hfits : kind.usage.Fits t owner)
    (hexclusive : t.IsOpen owner → ∀ i u, t.scope? i = some owner → t.name? i = some name →
      t.usage? i = some u → u.isExclusive = true → kind.usage = .state ∧ u ≠ .state) :
    t.Welcomes owner name kind := by
  refine ⟨fun h => ?_, fun _ => hexclusive, hfits⟩
  rw [hunique] at h
  cases h

/-- A name that nothing has which excludes it. -/
theorem not_exclusive_of_find? (h : t.find? owner name Walk.isExclusive = none)
    (hform : t.WellFormed) (hscope : t.scope? i = some owner) (hname : t.name? i = some name)
    (hu : t.usage? i = some u) : u.isExclusive = false := by
  obtain ⟨x, rfl, hx⟩ := exists_of_find?_eq_none h hform hscope hname hu
  rw [SymbolKind.isExclusive_usage]
  exact hx

end Table

namespace Walk

variable {T : Table} {s s' : State} {h : Head} {owner : Nat} {t : Table}

/-- Functions are no open scopes, apart from the global one. -/
theorem not_isOpen_of_function {id : Nat} {f : Function} (hf : t.function? id = some f)
    (hid : id ≠ globalScope) : ¬ t.IsOpen id := by
  rintro (hglobal | ⟨-, u, hu, hscope⟩)
  · exact hid hglobal
  · rw [Table.usage?_of_kind? (Table.function?_eq_some.1 hf)] at hu
    cases hu
    cases hf : f.flags.method <;> simp [SymbolKind.usage, hf, Usage.isScope] at hscope

theorem usage_ne_enumeration_of_isLevel (h : t.Named) {id : Nat} (hid : t.IsLevel id) :
    t.usage? id ≠ some .enumeration := by
  rcases hid with rfl | hspace
  · rw [h.global]
    exact nofun
  · rw [Table.usage?_of_kind? hspace]
    exact nofun

theorem Discovers.welcome {name : String} {kind : SymbolKind} (h : Discovers t owner name kind)
    (hform : t.WellFormed) : t.Welcomes owner name kind := by
  cases h with
  | text new =>
    refine ⟨fun _ i hscope hname hu => ?_, fun hexclusive => (by cases hexclusive), rfl⟩
    obtain ⟨x, hx, hfilter⟩ := Table.exists_of_find?_eq_none new hform hscope hname hu
    rw [SymbolKind.usage_eq_text_iff.1 hx] at hfilter
    cases hfilter
  -- Members of one name differ in their types.
  | @member _ type new =>
    refine ⟨fun _ i hscope hname hu => ?_, fun _ hopen => ?_, rfl⟩
    · obtain ⟨x, hx, hfilter⟩ := Table.exists_of_find?_eq_none new hform hscope hname hu
      cases hk : x.kind with
      | var v =>
        rw [hk] at hx hfilter
        have htype : v.type ≠ type := by simpa [SymbolKind.var?] using hfilter
        cases hv : v.kind <;> simp [SymbolKind.usage, hv] at hx
        exact htype hx
      | function f => cases hf : f.flags.method <;> simp [SymbolKind.usage, hk, hf] at hx
      | _ => simp [SymbolKind.usage, hk] at hx
    · -- The member scope is not open.
      rcases hopen with hglobal | ⟨hmember, -⟩
      · cases hglobal
      · exact absurd rfl hmember
  -- And methods in what they return.
  | @method _ returnType new =>
    refine ⟨fun _ i hscope hname hu => ?_, fun hexclusive => (by cases hexclusive), rfl⟩
    obtain ⟨x, hx, hfilter⟩ := Table.exists_of_find?_eq_none new hform hscope hname hu
    cases hk : x.kind with
    | function f =>
      rw [hk] at hx hfilter
      have htype : f.returnType ≠ returnType := by simpa [SymbolKind.function?] using hfilter
      cases hf : f.flags.method <;> simp [SymbolKind.usage, hf] at hx
      exact htype hx
    | var v => cases hv : v.kind <;> simp [SymbolKind.usage, hk, hv] at hx
    | _ => simp [SymbolKind.usage, hk] at hx

/-- A namespace is made only where its name is free. -/
theorem welcomes_space (h : t.Named) (hform : t.WellFormed) {name : String}
    (hlevel : t.IsLevel owner)
    (new : t.find? owner name (fun x => isVariable x || x.kind.isContainer) = none) :
    t.Welcomes owner name .space := by
  refine Table.welcomes_exclusive rfl (usage_ne_enumeration_of_isLevel h hlevel)
    fun _ i u hscope hname hu hexclusive => ?_
  obtain ⟨x, rfl, hfilter⟩ := Table.exists_of_find?_eq_none new hform hscope hname hu
  rw [SymbolKind.isExclusive_usage] at hexclusive
  unfold isVariable at hfilter
  -- Every exclusive symbol would have been found.
  cases hk : x.kind with
  | var | state | enumeration | space =>
    rw [hk] at hfilter
    cases hfilter
  | _ =>
    rw [hk] at hexclusive
    cases hexclusive

theorem usage_of_usesMemory {v : Variable} (h : v.kind.usesMemory = true) :
    (SymbolKind.var v).usage = .variable := by
  refine SymbolKind.usage_var (fun hv => ?_) fun hv => ?_ <;> rw [hv] at h <;> cases h

theorem Declares.welcome {role : Role} {name : String} {kind : SymbolKind} {s₁ : State}
    (h : Declares s role owner name kind s₁) (houter : owner ≠ memberScope) (hnamed : s.table.Named)
    (hform : s.table.WellFormed) (hfunction : ∃ f, s.table.function? s.function = some f) :
    s.table.Welcomes owner name kind := by
  obtain ⟨f, hf⟩ := hfunction
  cases h with
  | @memory _ _ _ v hrole hkind =>
    have husage := usage_of_usesMemory hkind
    refine Table.welcomes_exclusive (by rw [husage]; rfl) (by rw [husage]; exact houter)
      fun hopen i u hscope hname hu hexclusive => ?_
    rcases hrole with ⟨-, houtside, hinside⟩ | ⟨-, henumeration, new⟩
    · by_cases hs : s.function = globalScope
      · have hfree := Table.not_exclusive_of_find? (houtside hs) hform hscope hname hu
        cases hfree.symm.trans hexclusive
      · -- Inside of a function the owner is the function.
        cases hinside hs
        exact absurd hopen (not_isOpen_of_function hf hs)
    · -- Whatever an enumeration owns is a variable, and none has this name.
      obtain ⟨x, rfl, hfilter⟩ := Table.exists_of_find?_eq_none new hform hscope hname hu
      have hvariable : x.kind.usage.isScope = false := by
        have hfits := hnamed.fits i owner _ hscope hu
        cases hk : x.kind with
        | state | enumeration | space =>
          rw [hk] at hfits
          exact absurd (Table.usage?_of_kind? henumeration) hfits
        | var v => cases hv : v.kind <;> simp [SymbolKind.usage, hv, Usage.isScope]
        | function f => cases hf : f.flags.method <;> simp [SymbolKind.usage, hf, Usage.isScope]
        | _ => rfl
      cases (SymbolKind.var?_of_isExclusive hexclusive hvariable).symm.trans hfilter
  | @inFrame _ _ v hinside hrole hkind =>
    have husage : (SymbolKind.var v).usage = .variable := by
      apply SymbolKind.usage_var <;> rw [hkind] <;> exact nofun
    exact Table.welcomes_exclusive (by rw [husage]; rfl) (by rw [husage]; exact houter)
      fun hopen => absurd hopen (not_isOpen_of_function hf hinside)
  | target => exact Table.welcomes_other rfl
  -- A state may share the name of something else, but not of a state.
  | state hlevel new =>
    refine Table.welcomes_exclusive rfl (usage_ne_enumeration_of_isLevel hnamed hlevel)
      fun _ i u hscope hname hu _ => ⟨rfl, ?_⟩
    rintro rfl
    obtain ⟨x, hx, hfilter⟩ := Table.exists_of_find?_eq_none new hform hscope hname hu
    cases (SymbolKind.usage_eq_state_iff.1 hx).symm.trans hfilter
  | enumeration hlevel new =>
    refine Table.welcomes_exclusive rfl ?_ fun _ i u hscope hname hu hexclusive => ?_
    · rcases hlevel with hlevel | ⟨engine, editor, hstate⟩
      · exact usage_ne_enumeration_of_isLevel hnamed hlevel
      · show s.table.usage? owner ≠ _
        rw [Table.usage?_of_kind? hstate]
        exact nofun
    · cases (Table.not_exclusive_of_find? new hform hscope hname hu).symm.trans hexclusive

/-! ### Functions and their parameters -/

/-- Parameters without a fault are values and have different names. -/
theorem parameterFault?_eq_none {earlier : List String} {all : List Parameter}
    (h : parameterFault? earlier all = none) :
    (∀ p ∈ all, p.type.primitive ≠ .void) ∧ (all.map (·.name.text)).Nodup ∧
      ∀ p ∈ all, p.name.text ∉ earlier := by
  induction all generalizing earlier with
  | nil => simp
  | cons p all ih =>
    unfold parameterFault? at h
    dsimp only at h
    split at h
    · cases h
    · next hvoid =>
      split at h
      · cases h
      · next hearlier =>
        -- The rest is checked with this name among the earlier ones.
        obtain ⟨hvalues, hnames, hlater⟩ := ih h
        refine ⟨fun q hq => ?_, List.nodup_cons.2 ⟨fun hmem => ?_, hnames⟩, fun q hq => ?_⟩
        · rcases List.mem_cons.1 hq with rfl | hq
          · simpa using hvoid
          · exact hvalues q hq
        · obtain ⟨q, hq, hname⟩ := List.mem_map.1 hmem
          exact hlater q hq (hname ▸ List.mem_cons_self)
        · rcases List.mem_cons.1 hq with rfl | hq
          · simpa using hearlier
          · exact fun hmem => hlater q hq (List.mem_cons_of_mem _ hmem)

theorem parameterFault?_of_functionFault? {m : Modifiers} {returnType : ValueType} {name : String}
    {all : List Parameter} {isInner isState : Bool}
    (h : functionFault? m returnType name all isInner isState = none) :
    parameterFault? [] all = none := by
  unfold functionFault? at h
  iterate 7
    split at h
    · cases h
  split at h
  · cases h
  · exact h

/-- Why a function is made: its parameters are in order, and no function of its name has
    parameters of the same types. -/
theorem State.Admits.free (admits : s.Admits h) :
    parameterFault? [] h.parameters = none ∧
      s.table.find? s.scope h.name
        (fun x => x.kind.function?.any (·.parameterTypes == h.parameters.map (·.type))) = none := by
  have hcheck := admits.checked
  unfold checkFunction inFunction at hcheck
  rw [view_bind] at hcheck
  obtain ⟨isState, s₁, hstate, hrest⟩ := bind_eq_ok.1 hcheck
  obtain ⟨hsame, -⟩ := inState_eq_ok hstate
  subst hsame
  cases hfault : functionFault? h.modifiers h.returnType h.name h.parameters
      (s₁.function != globalScope) isState with
  | some fault =>
    rw [hfault] at hrest
    exact absurd hrest (Never.ne_ok _ _ _)
  | none =>
    refine ⟨parameterFault?_of_functionFault? hfault, ?_⟩
    rw [hfault] at hrest
    change (view (·.scope) >>= fun scope => _ >>= _) s₁ = _ at hrest
    rw [view_bind] at hrest
    obtain ⟨found, s₂, hfind, hlast⟩ := bind_eq_ok.1 hrest
    obtain ⟨-, rfl⟩ := findChild_eq_ok hfind
    split at hlast
    · exact absurd hlast (Never.ne_ok _ _ _)
    · next hfree => simpa using hfree

theorem State.Admits.usage (admits : s.Admits h) :
    (SymbolKind.function h.function).usage = .function (h.parameters.map (·.type)) :=
  if_neg (by rw [show h.function.flags.method = false from admits.method]; exact Bool.false_ne_true)

theorem State.Admits.welcome (admits : s.Admits h) (hform : s.table.WellFormed) :
    s.table.Welcomes s.scope h.name (.function h.function) := by
  obtain ⟨hfault, new⟩ := admits.free
  refine ⟨fun _ i hscope hname hu => ?_, fun hexclusive => ?_, ?_⟩
  · rw [admits.usage] at hu
    obtain ⟨x, hx, hfilter⟩ := Table.exists_of_find?_eq_none new hform hscope hname hu
    cases hk : x.kind with
    | function f =>
      rw [hk] at hx hfilter
      -- A function of the same name has other parameters.
      have htypes : f.parameterTypes ≠ h.parameters.map (·.type) := by
        simpa [SymbolKind.function?] using hfilter
      cases hf : f.flags.method <;> simp [SymbolKind.usage, hf] at hx
      exact htypes hx
    | var v => cases hv : v.kind <;> simp [SymbolKind.usage, hk, hv] at hx
    | _ => simp [SymbolKind.usage, hk] at hx
  · rw [admits.usage] at hexclusive
    cases hexclusive
  · rw [admits.usage]
    refine ⟨admits.outer, fun type htype => ?_⟩
    obtain ⟨p, hp, rfl⟩ := List.mem_map.1 htype
    exact (parameterFault?_eq_none hfault).1 p hp

/-- Keys and values take no names. -/
theorem named_annotated {t : Table} (h : t.Named) (hform : t.WellFormed) (howner : owner < t.size)
    (entries : List (String × String)) :
    (entries.foldl (fun t entry => t.add (some owner) entry.1 (.metadata entry.2)) t).Named := by
  induction entries generalizing t with
  | nil => exact h
  | cons entry entries ih =>
    rw [List.foldl_cons]
    refine ih (h.add hform howner (Table.welcomes_other rfl))
      (hform.add howner _ (fun _ hf => by cases hf)) ?_
    rw [Table.size_add]
    exact Nat.lt_succ_of_lt howner

/-- Parameters with different names, each of which no parameter has yet. -/
theorem named_parametrised {t : Table} (h : t.Named) (hform : t.WellFormed) {function : Nat}
    {f : Function} (hf : t.function? function = some f) (hfunction : memberScope < function)
    {all : List (Parameter × Nat)} (hnodup : (all.map (·.1.name.text)).Nodup)
    (hnew : ∀ p ∈ all, ∀ i, t.scope? i = some function → t.name? i = some p.1.name.text →
      t.usage? i ≠ some .parameter) :
    (all.foldl (fun t p => t.add (some function) p.1.name.text (.var (p.1.variable p.2)))
      t).Named := by
  induction all generalizing t with
  | nil => exact h
  | cons p all ih =>
    have howner : function < t.size := Table.kind?_lt (Table.function?_eq_some.1 hf)
    -- In a function nothing is exclusive, so only other parameters matter.
    have hwelcome : t.Welcomes function p.1.name.text (.var (p.1.variable p.2)) :=
      ⟨fun _ => hnew p List.mem_cons_self,
        fun _ hopen =>
          absurd hopen (not_isOpen_of_function hf (Nat.ne_of_gt (Nat.zero_lt_of_lt hfunction))),
        Nat.ne_of_gt hfunction⟩
    rw [List.foldl_cons]
    rw [List.map_cons, List.nodup_cons] at hnodup
    refine ih (h.add hform howner hwelcome)
      (hform.add howner _ (fun _ hf => by cases hf)) ?_ hnodup.2
      fun q hq i hscope hname hu => ?_
    · rw [Table.function?_eq_some, Table.kind?_add, if_neg (Nat.ne_of_lt howner)]
      exact Table.function?_eq_some.1 hf
    · rw [Table.scope?_add] at hscope
      rw [Table.name?_add] at hname
      rw [Table.usage?_add] at hu
      split at hscope
      -- The one added last has a name that none of the rest has.
      · next hi =>
        rw [if_pos hi] at hname
        exact hnodup.1 (List.mem_map.2 ⟨q, hq, (Option.some.inj hname).symm⟩)
      · next hi =>
        rw [if_neg hi] at hname hu
        exact hnew q (List.mem_cons_of_mem _ hq) i hscope hname hu

/-- A new function with its keys and values and its parameters. -/
theorem State.Admits.named (admits : s.Admits h) (hnamed : s.table.Named)
    (hform : s.table.WellFormed) : (s.introduce h).table.Named := by
  have hcounts : ∀ f, SymbolKind.function h.function = .function f →
      f.parameterCount = f.parameterTypes.length := by
    rintro _ ⟨⟩
    simp [Head.function]
  -- The function, then its keys and values, then its parameters.
  let t := s.table.add (some s.scope) h.name (.function h.function)
  have ht : t.Named := hnamed.add hform admits.scope (admits.welcome hform)
  have hsize : s.table.size < t.size := by simp [t]
  have hform₁ : t.WellFormed := hform.add admits.scope h.name hcounts
  let entries := s.metadata
  let t₁ := entries.foldl (fun t entry => t.add (some s.table.size) entry.1 (.metadata entry.2)) t
  have hedits : Table.Edits (fun owner kind => owner = s.table.size ∧ kind.usage = .other)
      (fun _ _ => False)
      t t₁ :=
    Table.edits_foldl_add Prod.fst (fun entry => .metadata entry.2) (fun _ _ hf => by cases hf)
      (fun _ _ => ⟨rfl, rfl⟩) hsize
  have hf : t₁.function? s.table.size = some h.function := by
    show t₁.see SymbolKind.function? s.table.size = _
    rw [hedits.see (fun _ _ h => h.elim) hsize, Table.see_add, if_pos rfl]
    rfl
  have hlater : memberScope < s.table.size := Table.lt_of_see hnamed.member
  show ((State.parametrise _ s.table.size h.parameters.zipIdx).table).Named
  rw [table_parametrise]
  refine named_parametrised (named_annotated ht hform₁ hsize entries)
    (hedits.wellFormed hform₁) hf hlater
    ?_ fun p _ i hscope _ hu => ?_
  · have hnames := (parameterFault?_eq_none admits.free.1).2.1
    rwa [← h.parameters.zipIdx_map_fst 0, List.map_map] at hnames
  · -- So far the new function owns nothing but keys and values.
    rcases hedits.see_eq_some (fun _ _ h => h.elim) hu with hold | ⟨owner, kind, hkind, husage, -⟩
    · have hi : i < t.size := Table.lt_of_see hold
      rw [hedits.grows.scope? hi] at hscope
      rw [Table.scope?_add] at hscope
      split at hscope
      · exact absurd (Option.some.inj hscope) (Nat.ne_of_lt admits.scope)
      · exact absurd (hform.scope_lt i _ hscope)
          (Nat.not_lt.2 (by rw [Table.size_add] at hi; omega))
    · cases hkind.2.symm.trans (Option.some.inj husage)

/-! ### Walks -/

theorem usage_markUsed (k : SymbolKind) : k.markUsed.usage = k.usage := by
  cases k <;> rfl

theorem usage_code (put : Array Instruction → Array Instruction) (k : SymbolKind) :
    (k.mapFunction fun f => { f with code := put f.code }).usage = k.usage := by
  cases k <;> rfl

theorem usage_placed (place : Nat) (k : SymbolKind) : (placed place k).usage = k.usage := by
  cases k <;> rfl

theorem named_emit (h : s.table.Named) (op : Opcode) (operands : List Operand)
    (place : Option Nat) : (s.emit op operands place).table.Named := by
  obtain ⟨i, files, -, hemit⟩ := s.emit_eq op operands place
  rw [hemit]
  exact h.modifyKind fun k _ => usage_code (putAt · place i) k

theorem named_layFrame (h : t.Named) (hform : t.WellFormed) {function locals : Nat}
    (hgrows : t.Grows (layFrame t function locals)) : (layFrame t function locals).Named := by
  have hsame : ∀ id, t.size ≤ id → (layFrame t function locals).get? id = t.get? id := by
    intro id hid
    rw [Table.get?_eq_none hid, Table.get?_eq_none (by rw [Table.size_layFrame]; exact hid)]
  refine h.congr (fun id => ?_) (fun id => ?_) (fun id => ?_) fun id => Table.children_layFrame
  · by_cases hid : id < t.size
    · exact hgrows.scope? hid
    · unfold Table.scope?
      rw [hsame id (Nat.le_of_not_lt hid)]
  · by_cases hid : id < t.size
    · exact hgrows.name? hid
    · unfold Table.name?
      rw [hsame id (Nat.le_of_not_lt hid)]
  · refine Table.see_layFrame hform (fun _ k => ?_) fun _ k => ?_
    · cases k <;> rfl
    · cases k <;> rfl

/-- The state of a walk in which names are told apart. -/
structure State.Orderly (s : State) : Prop where
  wellFormed : s.table.WellFormed
  named : s.table.Named
  function : s.pass = .declare → ∃ f, s.table.function? s.function = some f

theorem Step.named (h : Step T s s') (hT : T.WellFormed) (hgrows : s.table.Grows T)
    (hs : s.Orderly) :
    s'.table.Named := by
  cases h with
  | aside => exact hs.named
  | use => exact hs.named.modifyKind fun k _ => usage_markUsed k
  | discover hscope new => exact hs.named.add hs.wellFormed hscope (new.welcome hs.wellFormed)
  | @fix id f types hmethod hf =>
    -- What is called through `->` is a method, and those are told apart by their results.
    have hlt := Table.kind?_lt (Table.function?_eq_some.1 hf)
    have hscope : s.table.scope? id = some memberScope := by
      rw [← hgrows.scope? hlt]
      exact hT.owned memberScope id hmethod.2
    have hflag : f.flags.method = true := by
      have hfits := hs.named.fits id memberScope _ hscope
        (Table.usage?_of_kind? (Table.function?_eq_some.1 hf))
      cases hflag : f.flags.method with
      | true => rfl
      | false =>
        simp only [SymbolKind.usage, hflag] at hfits
        exact absurd rfl hfits.1
    refine hs.named.modifyKind fun k hk => ?_
    cases hk.symm.trans (Table.function?_eq_some.1 hf)
    show (if f.flags.method = true then Usage.method _ else _) =
      if f.flags.method = true then _ else _
    rw [if_pos hflag, if_pos hflag]
    rfl
  | emit => exact named_emit hs.named ..

theorem Move.named (h : Move T s s') (hT : T.WellFormed) (hgrows : s.table.Grows T)
    (hs : s.Orderly) :
    s'.table.Named := by
  cases h with
  | step h => exact h.named hT hgrows hs
  | enter | retrieve => exact hs.named
  | annotate howner => exact named_annotated hs.named hs.wellFormed howner s.metadata
  | space howner houter hlevel new =>
    exact hs.named.add hs.wellFormed howner (welcomes_space hs.named hs.wellFormed hlevel new)
  | @declare token role owner name kind s₁ hpass howner houter new =>
    show (s₁.table.add (some owner) name kind).Named
    rw [new.table]
    exact hs.named.add hs.wellFormed howner
      (new.welcome houter hs.named hs.wellFormed (hs.function hpass))
  | introduce hpass admits => exact admits.named hs.named hs.wellFormed
  | literal id t => exact hs.named.modifyKind fun k _ => by cases k <;> rfl
  | retype id type hpass hlocal =>
    -- Locals are no members, which their types tell apart.
    refine hs.named.modifyKind fun k hk => ?_
    obtain ⟨v, hv, hkind⟩ := hlocal
    obtain ⟨k', hk', g⟩ := hgrows.kind? hk
    cases k with
    | var v₀ =>
      obtain ⟨v', rfl, hsame, -⟩ := g.var v₀ rfl
      cases (Table.var?_eq_some.1 hv).symm.trans hk'
      simp [SymbolKind.mapVariable, SymbolKind.usage, hsame.symm.trans hkind]
    | _ => rfl
  | jump => exact named_emit hs.named ..
  | bind => exact hs.named.modifyKind fun k _ => usage_placed s.here k

theorem Move.orderly (h : Move T s s') (hT : T.WellFormed) (hgrows : s'.table.Grows T)
    (hs : s.Orderly) :
    s'.Orderly where
  wellFormed := h.wellFormed hs.wellFormed
  named := h.named hT (h.grows.trans hgrows) hs
  function hpass := by
    obtain ⟨f, hf⟩ := hs.function (h.steady.pass ▸ hpass)
    obtain ⟨f', hf', -⟩ := h.grows.function? hf
    exact ⟨f', h.steady.function ▸ hf'⟩

theorem Steps.orderly (h : Steps T s s') (hT : T.WellFormed) (hgrows : s'.table.Grows T)
    (hs : s.Orderly) :
    s'.Orderly := by
  induction h with
  | refl => exact hs
  | tail _ hstep ih =>
    exact (Move.step hstep).orderly hT hgrows (ih (hstep.edits.grows.trans hgrows))

/-- A state in another function, which is one of the table. -/
theorem State.Orderly.within (hs : s.Orderly) (htable : s'.table = s.table)
    (hfunction : s'.pass = .declare → ∃ f, s'.table.function? s'.function = some f) :
    s'.Orderly where
  wellFormed := htable ▸ hs.wellFormed
  named := htable ▸ hs.named
  function := hfunction

theorem function?_introduce (h : Head) (s : State) :
    (s.introduce h).table.function? s.table.size = some h.function := by
  show (s.introduce h).table.see SymbolKind.function? s.table.size = _
  rw [(edits_attached (q := fun _ _ => False) h s).see (fun _ _ h => h.elim) (by simp),
    Table.see_add,
    if_pos rfl]
  rfl

/-- Names are told apart along every course. -/
theorem Course.orderly (h : Course T s s') (hT : T.WellFormed) (hgrows : s'.table.Grows T)
    (hs : s.Orderly) : s'.Orderly := by
  induction h with
  | refl => exact hs
  | move h => exact h.orderly hT hgrows hs
  | trans _ h₁ ih ih₁ => exact ih₁ hgrows (ih (h₁.grows.trans hgrows) hs)
  | @outside s s₁ h =>
    -- The symbol of the code outside of functions is a function.
    have hglobal : ∃ f, s.table.function? globalScope = some f := by
      obtain ⟨k, hk, husage⟩ := Table.usage?_eq_some.1 hs.named.global
      cases k with
      | function f => exact ⟨f, Table.function?_eq_some.2 hk⟩
      | var v => cases hv : v.kind <;> simp [SymbolKind.usage, hv] at husage
      | _ => cases husage
    have hs₀ : State.Orderly { s with function := globalScope } := hs.within rfl fun _ => hglobal
    refine (h.orderly hT hgrows hs₀).within rfl fun hpass => ?_
    obtain ⟨f, hf⟩ := hs.function (h.steady.pass ▸ hpass)
    obtain ⟨f', hf', -⟩ := h.grows.function? hf
    exact ⟨f', hf'⟩
  -- Laying out the frame moves variables and renames none.
  | @framed s s₁ h hpass admits _ body ih =>
    have hmade : (s.introduce h).Orderly := by
      refine ⟨(edits_introduce (q := fun _ _ => False) admits).wellFormed hs.wellFormed,
        admits.named hs.named hs.wellFormed, fun hdeclare => ?_⟩
      obtain ⟨f, hf⟩ := hs.function hpass
      obtain ⟨f', hf', -⟩ := (edits_introduce (q := fun _ _ => False) admits).grows.function? hf
      exact ⟨f', (steady_introduce h s).function ▸ hf'⟩
    have hlaid := (keeps_layFrame s₁ s.table.size).table
    have hinside : ((s.introduce h).inside s.table.size).Orderly :=
      hmade.within rfl fun _ => ⟨h.function, function?_introduce h s⟩
    have hs₁ := ih (hlaid.trans hgrows) hinside
    refine ⟨(keeps_layFrame s₁ s.table.size).wellFormed hs₁.wellFormed,
      named_layFrame hs₁.named hs₁.wellFormed hlaid, fun _ => ?_⟩
    obtain ⟨f, hf⟩ := hs.function hpass
    obtain ⟨f₀, hf₀, -⟩ := (edits_introduce (q := fun _ _ => False) admits).grows.function? hf
    obtain ⟨f₁, hf₁, -⟩ := (body.grows.trans hlaid).function? hf₀
    exact ⟨f₁, hf₁⟩
  | @filled s s₀ s₁ token id hpass _ _ _ parameters body ih ih₁ =>
    have hpass₁ := body.steady.pass.trans (parameters.steady.pass.trans hpass)
    have hreturn := edits_emit (T := T) (p := fun _ _ => False) hpass₁ .ret [] none
    have hgrows₁ := hreturn.grows.trans hgrows
    have hs₀ := ih (body.grows.trans hgrows₁) (hs.within rfl hs.function)
    have hs₁ := ih₁ hgrows₁ (hs₀.within rfl fun hdeclare => by
      cases hdeclare.symm.trans (parameters.steady.pass.trans hpass))
    exact ⟨hreturn.wellFormed hs₁.wellFormed, named_emit hs₁.named .ret [] none,
      fun hdeclare => by cases hdeclare.symm.trans hpass₁⟩

section Walked

variable {flags : Flags} {tokens : List Token} {s t : State}

theorem named_initialTable : initialTable.Named := by
  have hno : ∀ owner i j, ¬ initialTable.Namesakes owner i j := by
    intro owner i j hij
    cases (scope?_initialTable i).symm.trans hij.first
  refine ⟨fun owner i j u hij => absurd hij (hno owner i j),
    fun owner i j u v hij => absurd hij (hno owner i j), fun id owner u hid => ?_,
    fun owner => ?_, rfl, rfl⟩
  · cases (scope?_initialTable id).symm.trans hid
  · rw [children_initialTable]
    exact .nil

/-- The table of a compilation tells names apart. -/
theorem Walked.named (h : Walked flags tokens s t) : t.closed.table.Named := by
  have hinitial : (State.initial flags tokens).Orderly :=
    ⟨wellFormed_initialTable, named_initialTable, fun _ => ⟨{}, rfl⟩⟩
  have hfirst := h.first.orderly h.wellFormed (keeps_second h.emits).table hinitial
  have hsecond : t.Orderly := h.second.orderly h.wellFormed (.refl _)
    (hfirst.within rfl fun hdeclare => by cases hdeclare)
  exact named_emit hsecond.named .ret [] none

end Walked

end Walk

end StateScript
