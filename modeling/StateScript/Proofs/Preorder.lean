import Mathlib.Data.List.Perm.Subperm
import StateScript.Proofs.Table

/-! # Traversals of a table

  The traversal that numbers the symbols keeps a list of those it has still to visit, and
  puts the children of a symbol in front of it. In a well-formed table it comes to every
  symbol once, and to the owner of a symbol before the symbol itself.
-/

namespace StateScript.Table

/-- A traversal on its way, with what it has visited and what it has still to visit. -/
structure Traversal (t : Table) (seen rest : List Nat) : Prop where
  nodup : (seen ++ rest).Nodup
  lt : ∀ id ∈ seen ++ rest, id < t.size
  /-- What is known of has an owner that was visited. -/
  after : ∀ id ∈ seen ++ rest, ∀ owner, t.scope? id = some owner → owner ∈ seen
  /-- What a visited symbol owns is known of. -/
  known : ∀ owner ∈ seen, ∀ id ∈ t.children owner, id ∈ seen ++ rest
  roots : ∀ id, id < t.size → t.scope? id = none → id ∈ seen ++ rest
  /-- No symbol was visited before its owner. -/
  order : seen.Pairwise fun id later => t.scope? id ≠ some later

variable {t : Table} {seen rest : List Nat} {id : Nat}

/-- Visiting the next symbol. -/
theorem Traversal.step (h : t.Traversal seen (id :: rest)) (hform : t.Forest) :
    t.Traversal (seen ++ [id]) (t.children id ++ rest) := by
  have hmem : ∀ x, x ∈ seen ++ [id] ++ (t.children id ++ rest) ↔
      x ∈ seen ++ id :: rest ∨ x ∈ t.children id := by
    intro x
    simp only [List.mem_append, List.mem_cons, List.not_mem_nil, or_false]
    constructor
    · rintro ((h | h) | h | h) <;> simp [h]
    · rintro ((h | h | h) | h) <;> simp [h]
  have hid : id ∈ seen ++ id :: rest := List.mem_append_right _ List.mem_cons_self
  -- What is to be visited has not been seen.
  have hnew : id ∉ seen := fun hseen =>
    (List.nodup_append.1 h.nodup).2.2 id hseen id List.mem_cons_self rfl
  refine ⟨?_, fun x hx => ?_, fun x hx owner howner => ?_, fun owner howner x hx => ?_,
    fun x hx hroot => (hmem x).2 (.inl (h.roots x hx hroot)), ?_⟩
  · -- A child is not known of before its owner was visited.
    have hperm : (seen ++ [id] ++ (t.children id ++ rest)).Perm
        ((seen ++ id :: rest) ++ t.children id) := by
      rw [List.append_assoc, List.append_assoc, List.singleton_append, List.cons_append]
      exact (List.perm_append_comm.cons id).append_left seen
    refine hperm.nodup_iff.2 (List.nodup_append.2 ⟨h.nodup, hform.nodup id, ?_⟩)
    rintro x hx _ hchild rfl
    exact hnew (h.after x hx id (hform.owned id x hchild))
  · rcases (hmem x).1 hx with hx | hx
    · exact h.lt x hx
    · exact hform.lt_of_mem_children hx
  · rw [List.mem_append, List.mem_singleton]
    rcases (hmem x).1 hx with hx | hx
    · exact .inl (h.after x hx owner howner)
    · cases howner.symm.trans (hform.owned id x hx)
      exact .inr rfl
  · refine (hmem x).2 ?_
    rcases List.mem_append.1 howner with howner | howner
    · exact .inl (h.known owner howner x hx)
    · rw [List.mem_singleton.1 howner] at hx
      exact .inr hx
  · refine List.pairwise_append.2 ⟨h.order, List.pairwise_singleton .., ?_⟩
    intro x hx y hy hscope
    rw [List.mem_singleton.1 hy] at hscope
    exact hnew (h.after x (List.mem_append_left _ hx) id hscope)

theorem Traversal.length_le (h : t.Traversal seen rest) : (seen ++ rest).length ≤ t.size := by
  have hsubset : seen ++ rest ⊆ List.range t.size := fun x hx => List.mem_range.2 (h.lt x hx)
  simpa using (h.nodup.subperm hsubset).length_le

/-- With enough steps the traversal comes to its end. -/
theorem Traversal.visit (hform : t.Forest) (steps : Nat) (h : t.Traversal seen rest)
    (hsteps : t.size ≤ seen.length + steps) : t.Traversal (seen ++ t.visit steps rest) [] := by
  induction steps generalizing seen rest with
  | zero =>
    -- Everything was visited, so nothing is left.
    have hlength := h.length_le
    rw [List.length_append] at hlength
    have hnil : rest = [] := List.eq_nil_of_length_eq_zero (by omega)
    subst hnil
    simpa [Table.visit] using h
  | succ steps ih =>
    cases rest with
    | nil => simpa [Table.visit] using h
    | cons id rest =>
      have hnext := ih (h.step hform) (by simp; omega)
      simpa [Table.visit, List.append_assoc] using hnext

/-- The symbols without an owner. -/
def roots (t : Table) : List Nat := (List.range t.size).filter fun id => (t.scope? id).isNone

theorem nodup_roots (t : Table) : t.roots.Nodup := List.nodup_range.filter _

theorem mem_roots : id ∈ t.roots ↔ id < t.size ∧ t.scope? id = none := by
  rw [roots, List.mem_filter, List.mem_range, Option.isNone_iff_eq_none]

theorem traversal_roots {roots : List Nat} (hroots : roots.Perm t.roots) :
    t.Traversal [] roots where
  nodup := hroots.nodup_iff.2 t.nodup_roots
  lt id hid := (mem_roots.1 (hroots.mem_iff.1 hid)).1
  after id hid owner howner := by
    cases (mem_roots.1 (hroots.mem_iff.1 hid)).2.symm.trans howner
  known owner howner := by cases howner
  roots id hid hscope := hroots.mem_iff.2 (mem_roots.2 ⟨hid, hscope⟩)
  order := .nil

section Forest

variable {roots : List Nat} (h : t.Forest) (hroots : roots.Perm t.roots)

include h hroots

theorem Forest.size_le_mul : t.size ≤ roots.length * t.size := by
  by_cases hsize : t.size = 0
  · omega
  · -- Something without an owner comes first.
    have hfirst : t.scope? 0 = none := by
      cases hscope : t.scope? 0 with
      | none => rfl
      | some owner => exact absurd (h.scope_lt 0 owner hscope) (Nat.not_lt_zero owner)
    have hmem : 0 ∈ roots := hroots.mem_iff.2 (mem_roots.2 ⟨by omega, hfirst⟩)
    exact Nat.le_mul_of_pos_left _ (List.length_pos_of_mem hmem)

/-- The traversal from all roots to its end. -/
theorem Forest.traversal : t.Traversal (t.preorder roots) [] :=
  (traversal_roots hroots).visit h _ (by simpa using h.size_le_mul hroots)

/-- The traversal comes to every symbol: to the roots, and from an owner to its children. -/
theorem Forest.mem_preorder : id ∈ t.preorder roots ↔ id < t.size := by
  have hend := h.traversal hroots
  refine ⟨fun hid => hend.lt id (List.mem_append_left _ hid), fun hid => ?_⟩
  induction id using Nat.strongRecOn with
  | _ id ih =>
    cases hscope : t.scope? id with
    | none => simpa using hend.roots id hid hscope
    | some owner =>
      have hlt := h.scope_lt id owner hscope
      have howner := ih owner hlt (Nat.lt_trans hlt hid)
      simpa using hend.known owner howner id (h.listed id owner hscope)

theorem Forest.nodup_preorder : (t.preorder roots).Nodup := by
  simpa using (h.traversal hroots).nodup

/-- The traversal comes to every symbol once. -/
theorem Forest.preorder_perm : (t.preorder roots).Perm (List.range t.size) := by
  refine (List.perm_ext_iff_of_nodup (h.nodup_preorder hroots) List.nodup_range).2 fun id => ?_
  rw [h.mem_preorder hroots, List.mem_range]

/-- The traversal comes to the owner of a symbol before the symbol. -/
theorem Forest.idxOf_preorder_lt {owner : Nat} (hscope : t.scope? id = some owner) :
    (t.preorder roots).idxOf owner < (t.preorder roots).idxOf id := by
  have hid := lt_of_scope? hscope
  have hlt := h.scope_lt id owner hscope
  have hmem := (h.mem_preorder hroots).2 hid
  have howner := (h.mem_preorder hroots).2 (Nat.lt_trans hlt hid)
  have horder := List.pairwise_iff_getElem.1 (h.traversal hroots).order
  apply Decidable.byContradiction
  intro hge
  have hne : (t.preorder roots).idxOf owner ≠ (t.preorder roots).idxOf id := by
    intro heq
    exact absurd (List.idxOf_inj howner |>.1 heq) (Nat.ne_of_lt hlt)
  -- Otherwise the owner would come behind what it owns.
  have hearlier := horder _ _ (List.idxOf_lt_length_of_mem hmem)
    (List.idxOf_lt_length_of_mem howner)
    (by omega)
  simp only [List.getElem_idxOf] at hearlier
  exact hearlier hscope

end Forest

/-- Tables whose two roots are the first two symbols. -/
structure Rooted (t : Table) : Prop where
  wellFormed : t.WellFormed
  size : 1 < t.size
  scope : t.scope? 1 = none

theorem Rooted.scope_zero (h : t.Rooted) : t.scope? 0 = none := by
  cases hscope : t.scope? 0 with
  | none => rfl
  | some owner => exact absurd (h.wellFormed.scope_lt 0 owner hscope) (Nat.not_lt_zero owner)

theorem Rooted.perm_roots (h : t.Rooted) : [0, 1].Perm t.roots := by
  refine (List.perm_ext_iff_of_nodup (by simp) t.nodup_roots).2 fun id => ?_
  have hsize := h.size
  rw [mem_roots]
  constructor
  · intro hid
    rcases List.mem_cons.1 hid with rfl | hid
    · exact ⟨by omega, h.scope_zero⟩
    · rw [List.mem_singleton.1 hid]
      exact ⟨h.size, h.scope⟩
  · intro hroot
    -- Symbols behind the first two have an owner.
    have hle := h.wellFormed.root id hroot.1 hroot.2
    have hcases : id = 0 ∨ id = 1 := by omega
    rcases hcases with rfl | rfl <;> simp

theorem Rooted.mem_preorder (h : t.Rooted) : id ∈ t.preorder [0, 1] ↔ id < t.size :=
  h.wellFormed.toForest.mem_preorder h.perm_roots

theorem Rooted.nodup_preorder (h : t.Rooted) : (t.preorder [0, 1]).Nodup :=
  h.wellFormed.toForest.nodup_preorder h.perm_roots

theorem Rooted.preorder_perm (h : t.Rooted) : (t.preorder [0, 1]).Perm (List.range t.size) :=
  h.wellFormed.toForest.preorder_perm h.perm_roots

end StateScript.Table
