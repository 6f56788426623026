import StateScript.Proofs.Walk.Primitives

/-! # Names keep their meaning

  What a name means depends on the table only through its outline: neither the code of the
  functions nor the mark of a variable that is in use matters. The code of an expression
  changes nothing else, so a name means the same before and after it.

  `Looks` says this for a lookup. It gives the same answer in any state that is alike, and it
  changes nothing.
-/

namespace StateScript

/-! ### Outlines -/

/-- A kind without its code and without the mark of its use. -/
def SymbolKind.outline : SymbolKind → SymbolKind
  | .function f => .function { f with code := #[] }
  | .var v => .var { v with used := false }
  | k => k

def Symbol.outline (x : Symbol) : Symbol := { x with kind := x.kind.outline }

theorem SymbolKind.isContainer_outline (k : SymbolKind) :
    k.outline.isContainer = k.isContainer := by
  cases k <;> rfl

theorem Walk.isVariable_outline (x : Symbol) : Walk.isVariable x.outline = Walk.isVariable x := by
  obtain ⟨index, identifier, scope, children, kind⟩ := x
  cases kind <;> rfl

namespace Table

/-- The tables have the same outline. -/
def SameOutline (t t' : Table) : Prop :=
  ∀ id, (t'.get? id).map Symbol.outline = (t.get? id).map Symbol.outline

variable {t t' t'' : Table} {id : Nat}

theorem SameOutline.refl (t : Table) : t.SameOutline t := fun _ => rfl

theorem SameOutline.trans (h : t.SameOutline t') (h' : t'.SameOutline t'') : t.SameOutline t'' :=
  fun id => (h' id).trans (h id)

theorem sameOutline_modifyKind {g : SymbolKind → SymbolKind} (hg : ∀ k, (g k).outline = k.outline) :
    t.SameOutline (t.modifyKind id g) := by
  intro j
  rw [get?_modifyKind]
  split
  · cases t.get? j with
    | none => rfl
    | some x => simp only [Option.map_some, Symbol.outline, hg]
  · rfl

/-- A symbol stands where the other table has one of the same outline. -/
theorem SameOutline.get? (h : t.SameOutline t') {x : Symbol} (hx : t.get? id = some x) :
    ∃ x', t'.get? id = some x' ∧ x'.outline = x.outline := by
  have heq := h id
  rw [hx] at heq
  exact Option.map_eq_some_iff.1 heq

theorem SameOutline.get?_none (h : t.SameOutline t') (hx : t.get? id = none) :
    t'.get? id = none := by
  have heq := h id
  rw [hx] at heq
  exact Option.map_eq_none_iff.1 heq

theorem SameOutline.size_eq (h : t.SameOutline t') : t'.size = t.size := by
  apply Nat.le_antisymm
  · apply Nat.le_of_not_lt
    intro hlt
    have hnone : t.get? t.size = none := get?_eq_none (Nat.le_refl _)
    obtain ⟨x, hx⟩ := exists_get? hlt
    rw [h.get?_none hnone] at hx
    cases hx
  · apply Nat.le_of_not_lt
    intro hlt
    obtain ⟨x, hx⟩ := exists_get? hlt
    obtain ⟨x', hx', -⟩ := h.get? hx
    rw [get?_eq_none (Nat.le_refl _)] at hx'
    cases hx'

/-- Whatever does not depend on code and uses is the same for both tables. -/
theorem SameOutline.see {α : Type} (h : t.SameOutline t') (view : Symbol → α)
    (hview : ∀ x, view x.outline = view x) (id : Nat) :
    (t'.get? id).map view = (t.get? id).map view := by
  have hmap : ∀ o : Option Symbol, o.map view = (o.map Symbol.outline).map view := by
    intro o
    cases o with
    | none => rfl
    | some x => exact congrArg some (hview x).symm
  rw [hmap (t'.get? id), hmap (t.get? id), h id]

theorem SameOutline.children (h : t.SameOutline t') (id : Nat) :
    t'.children id = t.children id := by
  have hsee := h.see Symbol.children (fun _ => rfl) id
  unfold Table.children
  cases hx : t.get? id with
  | none => rw [h.get?_none hx]
  | some x =>
    obtain ⟨x', hx', -⟩ := h.get? hx
    rw [hx, hx'] at hsee
    rw [hx']
    exact Option.some.inj hsee

theorem SameOutline.isMatch (h : t.SameOutline t') {filter filter' : Symbol → Bool}
    (hfilter : ∀ x, filter x.outline = filter x) (hsame : ∀ x, filter' x = filter x) (name : String)
    (id : Nat) : t'.isMatch name filter' id = t.isMatch name filter id := by
  have hsee := h.see (fun x => x.identifier == name && filter x)
    (fun x => by simp only [hfilter]; rfl) id
  unfold Table.isMatch
  cases hx : t.get? id with
  | none => rw [h.get?_none hx]
  | some x =>
    obtain ⟨x', hx', -⟩ := h.get? hx
    rw [hx, hx'] at hsee
    rw [hx']
    simp only [hsame]
    exact Option.some.inj hsee

theorem SameOutline.find? (h : t.SameOutline t') {filter filter' : Symbol → Bool}
    (hfilter : ∀ x, filter x.outline = filter x) (hsame : ∀ x, filter' x = filter x) (scope : Nat)
    (name : String) : t'.find? scope name filter' = t.find? scope name filter := by
  unfold Table.find?
  rw [h.children, funext (h.isMatch hfilter hsame name)]

/-- A variable is the same but for the mark of its use. -/
theorem SameOutline.var? (h : t.SameOutline t') {v : Variable} (hv : t.var? id = some v) :
    ∃ used, t'.var? id = some { v with used } := by
  obtain ⟨k, hk, hkind⟩ := Option.bind_eq_some_iff.1 hv
  obtain ⟨x, hx, rfl⟩ := kind?_eq_some.1 hk
  obtain ⟨x', hx', houtline⟩ := h.get? hx
  have hk' : t'.kind? id = some x'.kind := kind?_eq_some.2 ⟨x', hx', rfl⟩
  have hkinds : x'.kind.outline = x.kind.outline := congrArg Symbol.kind houtline
  rw [Table.var?, hk', Option.bind_some]
  cases hxk : x.kind with
  | var w =>
    rw [hxk] at hkind hkinds
    cases hkind
    cases hxk' : x'.kind with
    | var w' =>
      rw [hxk'] at hkinds
      -- Two variables of one outline differ in the mark alone.
      refine ⟨w'.used, congrArg some ?_⟩
      obtain ⟨⟩ := v
      obtain ⟨⟩ := w'
      cases hkinds
      rfl
    | _ =>
      rw [hxk'] at hkinds
      cases hkinds
  | _ =>
    rw [hxk] at hkind
    cases hkind

end Table

/-! ### Lookups -/

namespace Walk

variable {filter : Symbol → Bool}

/-- Two states in which names mean the same. -/
structure State.Alike (s s' : State) : Prop where
  outline : s.table.SameOutline s'.table
  scope : s'.scope = s.scope
  blocks : s'.blocks = s.blocks

/-- A lookup that gives the same answer in states that are alike. -/
structure Looks {α : Type} (x : Walk α) : Prop where
  run : ∀ {s s' s₁ : State} {a : α}, s.Alike s' → x s = .ok a s₁ → s₁ = s ∧ x s' = .ok a s'

variable {α β : Type}

theorem State.Alike.knows {s s' : State} (h : s.Alike s') (ids : List Nat) :
    s'.knows ids = s.knows ids := by
  unfold State.knows
  rw [h.outline.size_eq]

namespace Looks

theorem pure (a : α) : Looks (Pure.pure a : Walk α) := by
  constructor
  intro s s' s₁ b h hrun
  cases hrun
  exact ⟨rfl, rfl⟩

theorem bind {x : Walk α} {f : α → Walk β} (hx : Looks x) (hf : ∀ a, Looks (f a)) :
    Looks (x >>= f) := by
  constructor
  intro s s' s₁ b h hrun
  obtain ⟨a, s₂, hfirst, hrest⟩ := bind_eq_ok.1 hrun
  obtain ⟨rfl, hfirst'⟩ := hx.run h hfirst
  obtain ⟨rfl, hrest'⟩ := (hf a).run h hrest
  exact ⟨rfl, by rw [bind_of_ok hfirst', hrest']⟩

theorem view {f : State → α} (hf : ∀ s s' : State, s.Alike s' → f s' = f s) :
    Looks (Walk.view f) := by
  constructor
  intro s s' s₁ b h hrun
  cases hrun
  exact ⟨rfl, by rw [Walk.view, hf s s' h]⟩

theorem ensure {holds : State → Bool} (hf : ∀ s s' : State, s.Alike s' → holds s' = holds s) :
    Looks (Walk.ensure holds) := by
  constructor
  intro s s' s₁ u h hrun
  unfold Walk.ensure at hrun
  split at hrun
  · next hholds =>
    cases hrun
    exact ⟨rfl, ensure_of (by rw [hf s s' h, hholds])⟩
  · cases hrun

end Looks

theorem looks_findChild (scope : Nat) (name : String) (hfilter : ∀ x, filter x.outline = filter x) :
    Looks (findChild scope name filter) := by
  refine .bind (.ensure ?_) fun _ => .view ?_
  · intro s s' h
    rw [h.knows, funext h.outline.children]
  · intro s s' h
    exact h.outline.find? hfilter (fun _ => rfl) scope name

theorem looks_lookupLocal (name : String) : Looks (lookupLocal name) := by
  refine .bind (.ensure ?_) fun _ => .view ?_
  · intro s s' h
    rw [h.knows, h.blocks]
  · intro s s' h
    rw [h.blocks, funext (h.outline.isMatch (fun _ => rfl) (fun _ => rfl) name)]

theorem scopeChain_outline {t t' : Table} (h : t.SameOutline t') (steps id : Nat) :
    scopeChain t' steps id = scopeChain t steps id := by
  induction steps generalizing id with
  | zero => rfl
  | succ steps ih =>
    have hsee := h.see Symbol.scope (fun _ => rfl) id
    unfold scopeChain
    cases hx : t.get? id with
    | none => rw [h.get?_none hx]
    | some x =>
      obtain ⟨x', hx', -⟩ := h.get? hx
      rw [hx, hx'] at hsee
      have hscope : x'.scope = x.scope := Option.some.inj hsee
      rw [hx']
      dsimp only
      rw [hscope]
      cases x.scope with
      | none => rfl
      | some owner => exact congrArg (Option.map (id :: ·)) (ih owner)

theorem looks_scopes : Looks scopes := by
  constructor
  intro s s' s₁ ids h hrun
  have hchain : scopeChain s'.table s'.table.size s'.scope =
      scopeChain s.table s.table.size s.scope := by
    rw [scopeChain_outline h.outline, h.outline.size_eq, h.scope]
  unfold scopes at hrun ⊢
  rw [hchain]
  cases hids : scopeChain s.table s.table.size s.scope with
  | none =>
    rw [hids] at hrun
    cases hrun
  | some ids' =>
    rw [hids] at hrun
    cases hrun
    exact ⟨rfl, rfl⟩

theorem isFoundIn_outline {t t' : Table} (h : t.SameOutline t') (scope : Nat) (x : Symbol) :
    isFoundIn t' scope x = isFoundIn t scope x := by
  have hsee := h.see (fun x => x.kind.function?.isSome)
    (fun x => by obtain ⟨_, _, _, _, kind⟩ := x; cases kind <;> rfl) scope
  have hany : ∀ o : Option Symbol, o.any (fun x => x.kind.function?.isSome) =
      (o.map fun x => x.kind.function?.isSome).getD false := by
    intro o
    cases o <;> rfl
  unfold isFoundIn
  rw [hany, hany, hsee]

theorem isFoundIn_symbol (t : Table) (scope : Nat) (x : Symbol) :
    isFoundIn t scope x.outline = isFoundIn t scope x := by
  obtain ⟨index, identifier, owner, children, kind⟩ := x
  cases kind <;> rfl

theorem looks_resolve (name : String) (hfilter : ∀ x, filter x.outline = filter x) :
    Looks (resolve name filter) := by
  refine .bind looks_scopes fun ids => .bind (.ensure ?_) fun _ => .view ?_
  · intro s s' h
    rw [h.knows, funext h.outline.children]
  · intro s s' h
    -- Nothing that the search tests is left out of the outline.
    have hscope : ∀ scope, s'.table.find? scope name
        (fun x => isFoundIn s'.table scope x && filter x) =
        s.table.find? scope name (fun x => isFoundIn s.table scope x && filter x) := by
      intro scope
      apply h.outline.find?
      · intro x
        rw [isFoundIn_symbol, hfilter]
      · intro x
        rw [isFoundIn_outline h.outline]
    simp only [hscope]

theorem looks_descend (path : List Token) (scope : Nat) : Looks (descend path scope) := by
  induction path generalizing scope with
  | nil => exact .pure _
  | cons segment rest ih =>
    unfold descend
    refine .bind (looks_findChild _ _ fun x => x.kind.isContainer_outline) fun found => ?_
    cases found with
    | none => exact .pure _
    | some id => exact ih id

theorem looks_resolveContainer (first : Token) (rest : List Token) :
    Looks (resolveContainer first rest) := by
  refine .bind (looks_resolve _ fun x => x.kind.isContainer_outline) fun found => ?_
  cases found with
  | none => exact .pure _
  | some scope => exact looks_descend rest scope

/-- The symbol itself may have got code meanwhile, but the filter does not see it. -/
theorem looks_test (id : Nat) (hfilter : ∀ x, filter x.outline = filter x) {x y : Walk α}
    (hx : Looks x) (hy : Looks y) :
    Looks (symbol id >>= fun found => if filter found = true then x else y) := by
  constructor
  intro s s' s₁ b h hrun
  obtain ⟨found, s₂, hfound, hrest⟩ := bind_eq_ok.1 hrun
  unfold symbol at hfound
  cases hget : s.table.get? id with
  | none =>
    rw [hget] at hfound
    cases hfound
  | some found₀ =>
    rw [hget] at hfound
    cases hfound
    obtain ⟨found', hget', houtline⟩ := h.outline.get? hget
    have hsymbol : symbol id s' = .ok found' s' := by
      unfold symbol
      rw [hget']
    -- The filter answers alike for both, so the same branch is taken.
    have hsame : filter found' = filter found := by rw [← hfilter found', houtline, hfilter]
    rw [bind_of_ok hsymbol, hsame]
    split at hrest
    · next htrue =>
      rw [if_pos htrue]
      exact hx.run h hrest
    · next hfalse =>
      rw [if_neg hfalse]
      exact hy.run h hrest

theorem looks_resolvePath (path : List Token) (hfilter : ∀ x, filter x.outline = filter x) :
    Looks (resolvePath path filter) := by
  unfold resolvePath
  cases path.getLast? with
  | none => exact .pure _
  | some last =>
    cases path.dropLast with
    | nil =>
      refine .bind (looks_lookupLocal _) fun found => ?_
      cases found with
      | none => exact looks_resolve _ hfilter
      | some id => exact looks_test id hfilter (.pure _) (looks_resolve _ hfilter)
    | cons first rest =>
      refine .bind (looks_resolveContainer first rest) fun found => ?_
      cases found with
      | none => exact .pure _
      | some container => exact looks_findChild _ _ hfilter

end Walk

end StateScript
