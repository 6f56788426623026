import StateScript.Proofs.Preorder
import StateScript.Walk.Link

/-! # What linking makes of a table

  The number of a symbol is its place in the traversal from both roots, and the entries of
  the linked unit stand in that order. The bodies of the functions follow each other in it,
  so that each starts where those before it end.
-/

namespace StateScript.Walk

variable {t : Table} {id : Nat} {ids : List Nat} {α : Type}

/-! ### Numbers -/

theorem getD_foldl_number (hnodup : ids.Nodup) (start : Nat) (numbers : Array Nat)
    (hlt : ∀ id ∈ ids, id < numbers.size) :
    ((ids.zipIdx start).foldl (fun (numbers : Array Nat) p =>
      numbers.setIfInBounds p.1 p.2) numbers).getD id 0 =
      if id ∈ ids then start + ids.idxOf id else numbers.getD id 0 := by
  induction ids generalizing start numbers with
  | nil => simp
  | cons first ids ih =>
    rw [List.nodup_cons] at hnodup
    have hfirst := hlt first List.mem_cons_self
    rw [List.zipIdx_cons, List.foldl_cons, ih hnodup.2 _ _ (fun id hid => by
      simpa using hlt id (List.mem_cons_of_mem _ hid))]
    by_cases hid : id = first
    -- No later number takes the place of this one.
    · subst hid
      simp [hnodup.1, Array.getD, hfirst]
    · have hne : ¬ first = id := fun e => hid e.symm
      by_cases hmem : id ∈ ids
      · simp [hmem, hid, List.idxOf_cons_ne ids hne]
        omega
      · simp [hmem, hid, hne]

theorem getElem?_filterMap_zipIdx {f : Nat × Nat → Option α} (start : Nat)
    (h : ∀ id ∈ ids, ∀ n, (f (id, n)).isSome = true) (i : Nat) :
    ((ids.zipIdx start).filterMap f)[i]? = ids[i]?.bind fun id => f (id, start + i) := by
  induction ids generalizing start i with
  | nil => simp
  | cons id ids ih =>
    obtain ⟨x, hx⟩ := Option.isSome_iff_exists.1 (h id List.mem_cons_self start)
    rw [List.zipIdx_cons, List.filterMap_cons, hx]
    cases i with
    | zero => simp [hx]
    | succ i =>
      have hrest := ih (start + 1) (fun j hj => h j (List.mem_cons_of_mem _ hj)) i
      simpa [Nat.add_comm 1, Nat.add_assoc] using hrest

section Order

variable {order : List Nat} (hnodup : order.Nodup) (hmem : ∀ {id}, id ∈ order ↔ id < t.size)

include hnodup hmem

/-- The number of a symbol is its place in the order. -/
theorem number_ofOrder (hid : id < t.size) :
    (Layout.ofOrder t order).number id = order.idxOf id := by
  have hlt : ∀ id ∈ order, id < (Array.replicate t.size 0).size := by
    intro id hid
    rw [Array.size_replicate]
    exact hmem.1 hid
  refine (getD_foldl_number hnodup 0 (Array.replicate t.size 0) hlt).trans ?_
  rw [if_pos (hmem.2 hid), Nat.zero_add]

omit hnodup

/-- The entry with a number is that of the symbol at this place of the order. -/
theorem getElem?_symbols_ofOrder (i : Nat) : ((Layout.ofOrder t order).symbols t)[i]? =
    order[i]?.bind fun id => (Layout.ofOrder t order).entryOf t i id := by
  have hsome : ∀ id ∈ order, ∀ n, ((Layout.ofOrder t order).entryOf t n id).isSome = true := by
    intro id hid n
    obtain ⟨x, hx⟩ := Table.exists_get? (hmem.1 hid)
    simp [Layout.entryOf, hx]
  have hget := getElem?_filterMap_zipIdx
    (f := fun p => (Layout.ofOrder t order).entryOf t p.2 p.1) 0 hsome i
  rw [Nat.zero_add] at hget
  exact hget

end Order

/-- The number of a symbol is its place in the traversal. -/
theorem number_layout (h : t.Rooted) (hid : id < t.size) :
    (layout t).number id = (t.preorder [0, 1]).idxOf id :=
  number_ofOrder h.nodup_preorder h.mem_preorder hid

theorem getElem?_number (h : t.Rooted) (hid : id < t.size) :
    (t.preorder [0, 1])[(layout t).number id]? = some id := by
  rw [number_layout h hid, List.getElem?_idxOf (h.mem_preorder.2 hid)]

theorem number_inj (h : t.Rooted) {j : Nat} (hid : id < t.size) (hj : j < t.size)
    (heq : (layout t).number id = (layout t).number j) : id = j := by
  have hget := getElem?_number h hid
  rw [heq, getElem?_number h hj] at hget
  exact (Option.some.inj hget).symm

/-- Owners get smaller numbers than what they own. -/
theorem number_scope_lt (h : t.Rooted) {owner : Nat} (hid : id < t.size)
    (hscope : t.scope? id = some owner) : (layout t).number owner < (layout t).number id := by
  have howner := Nat.lt_trans (h.wellFormed.scope_lt id owner hscope) hid
  rw [number_layout h howner, number_layout h hid]
  exact h.wellFormed.toForest.idxOf_preorder_lt h.perm_roots hscope

/-! ### Entries -/

/-- The entry with a number is that of the symbol at this place of the traversal. -/
theorem getElem?_symbols (h : t.Rooted) (i : Nat) : ((layout t).symbols t)[i]? =
    (t.preorder [0, 1])[i]?.bind fun id => (layout t).entryOf t i id :=
  getElem?_symbols_ofOrder h.mem_preorder i

/-- Every symbol has an entry at its number. -/
theorem exists_entry (h : t.Rooted) (hid : id < t.size) :
    ((layout t).symbols t)[(layout t).number id]? =
      (layout t).entryOf t ((layout t).number id) id := by
  rw [getElem?_symbols h, getElem?_number h hid, Option.bind_some]

/-- Every entry is that of a symbol. -/
theorem exists_symbol (h : t.Rooted) {i : Nat} {e : Entry}
    (he : ((layout t).symbols t)[i]? = some e) :
    ∃ id, id < t.size ∧ i = (layout t).number id ∧ (layout t).entryOf t i id = some e := by
  rw [getElem?_symbols h] at he
  obtain ⟨id, hid, he⟩ := Option.bind_eq_some_iff.1 he
  have hlt := h.mem_preorder.1 (List.mem_of_getElem? hid)
  refine ⟨id, hlt, ?_, he⟩
  obtain ⟨hi, rfl⟩ := List.getElem?_eq_some_iff.1 hid
  rw [number_layout h hlt, h.nodup_preorder.idxOf_getElem]

/-! ### Bodies -/

/-- The code of a symbol, which is empty unless it is a function with a body. -/
def bodyOf (t : Table) (id : Nat) : List Instruction := ((codeOf? t id).map Array.toList).getD []

/-- How many instructions stand before the body of a symbol. -/
def offsetOf (t : Table) (id : Nat) : Nat :=
  (((t.preorder [0, 1]).take ((t.preorder [0, 1]).idxOf id)).flatMap (bodyOf t)).length

theorem codeOf?_eq_some {c : Array Instruction} :
    codeOf? t id = some c ↔ ∃ f, t.function? id = some f ∧ hasBody f = true ∧ f.code = c := by
  unfold codeOf? Table.function? Table.kind?
  cases t.get? id with
  | none => simp
  | some x =>
    cases hf : x.kind.function? with
    | none => simp [hf]
    | some f => simp [hf]

theorem lt_of_codeOf? {c : Array Instruction} (h : codeOf? t id = some c) : id < t.size := by
  obtain ⟨f, hf, -⟩ := codeOf?_eq_some.1 h
  obtain ⟨x, hx, -⟩ := Table.kind?_eq_some.1 (Table.function?_eq_some.1 hf)
  exact Table.get?_lt hx

theorem layBodies_snd (ids : List Nat) (entries : Array (Option Nat)) (code : Array Instruction) :
    (layBodies t ids entries code).2.toList = code.toList ++ ids.flatMap (bodyOf t) := by
  induction ids generalizing entries code with
  | nil => simp [layBodies]
  | cons first ids ih =>
    unfold layBodies
    split
    · next own hown => simp [ih, bodyOf, hown]
    · next hown => simp [ih, bodyOf, hown]

theorem layBodies_fst (hnodup : ids.Nodup) (entries : Array (Option Nat)) (code : Array Instruction)
    (hlt : ∀ id ∈ ids, id < entries.size) :
    (layBodies t ids entries code).1.getD id none =
      if id ∈ ids ∧ (codeOf? t id).isSome = true then
        some (code.size + ((ids.take (ids.idxOf id)).flatMap (bodyOf t)).length)
      else entries.getD id none := by
  induction ids generalizing entries code with
  | nil => simp [layBodies]
  | cons first ids ih =>
    rw [List.nodup_cons] at hnodup
    have hfirst := hlt first List.mem_cons_self
    have hrest : ∀ id ∈ ids, id < entries.size := fun id hid => hlt id (List.mem_cons_of_mem _ hid)
    have hset : ∀ place, ∀ id ∈ ids,
        id < (entries.setIfInBounds first place).size := by simpa using hrest
    unfold layBodies
    by_cases hid : id = first
    -- The first id is not met again, so the rest leaves its entry alone.
    · subst hid
      split
      · next own hown =>
        rw [ih hnodup.2 _ _ (hset _), if_neg fun h => hnodup.1 h.1]
        simp [hown, Array.getD, hfirst]
      · next hown =>
        rw [ih hnodup.2 _ _ hrest, if_neg fun h => hnodup.1 h.1]
        simp [hown]
    · have hne : ¬ first = id := fun e => hid e.symm
      -- The others are laid behind the first.
      have htake : (first :: ids).take ((first :: ids).idxOf id) = first :: ids.take
          (ids.idxOf id) := by
        rw [List.idxOf_cons_ne ids hne, List.take_succ_cons]
      split
      · next own hown =>
        rw [ih hnodup.2 _ _ (hset _), htake]
        simp [hid, hne, bodyOf, hown, Nat.add_assoc]
      · next hown =>
        rw [ih hnodup.2 _ _ hrest, htake]
        simp [hid, bodyOf, hown]

/-- The bodies stand in the order of the numbers. -/
theorem code_layout (t : Table) : (layout t).code = (t.preorder [0, 1]).flatMap (bodyOf t) := by
  have hcode := layBodies_snd (t := t) (t.preorder [0, 1]) (Array.replicate t.size none) #[]
  rw [show (#[] : Array Instruction).toList = [] from rfl, List.nil_append] at hcode
  exact hcode

/-- A function with a body starts where the bodies before it end. -/
theorem start?_layout (h : t.Rooted) : (layout t).start? id =
    if (codeOf? t id).isSome = true then some (offsetOf t id) else none := by
  have hlt : ∀ id ∈ t.preorder [0, 1], id < (Array.replicate t.size (none : Option Nat)).size := by
    intro id hid
    rw [Array.size_replicate]
    exact h.mem_preorder.1 hid
  refine (layBodies_fst h.nodup_preorder (Array.replicate t.size none) #[] hlt).trans ?_
  cases hcode : codeOf? t id with
  | none => simp [Array.getD]
  | some own =>
    have hmem := h.mem_preorder.2 (lt_of_codeOf? hcode)
    simp [hmem, offsetOf]

/-! ### Places in the program -/

/-- The instructions before a place of the traversal. -/
def upTo (t : Table) (place : Nat) : List Instruction :=
  ((t.preorder [0, 1]).take place).flatMap (bodyOf t)

theorem offsetOf_eq (t : Table) (id : Nat) :
    offsetOf t id = (upTo t ((t.preorder [0, 1]).idxOf id)).length :=
  rfl

theorem upTo_succ {place : Nat} (h : (t.preorder [0, 1])[place]? = some id) :
    upTo t (place + 1) = upTo t place ++ bodyOf t id := by
  unfold upTo
  rw [List.take_add_one, h, List.flatMap_append]
  simp

theorem upTo_isPrefix (t : Table) {place place' : Nat} (h : place ≤ place') :
    upTo t place <+: upTo t place' := by
  obtain ⟨rest, hrest⟩ := List.take_prefix_take_left (l := t.preorder [0, 1]) h
  unfold upTo
  rw [← hrest, List.flatMap_append]
  exact List.prefix_append ..

theorem upTo_isPrefix_code (t : Table) (place : Nat) : upTo t place <+: (layout t).code := by
  have hcode : (layout t).code = upTo t place ++ ((t.preorder [0, 1]).drop place).flatMap
      (bodyOf t) := by
    rw [code_layout, upTo, ← List.flatMap_append, List.take_append_drop]
  rw [hcode]
  exact List.prefix_append ..

theorem exists_place_of_flatMap {β : Type} {g : α → List β} {l : List α} {n : Nat} {b : β}
    (h : (l.flatMap g)[n]? = some b) : ∃ m a k, l[m]? = some a ∧ (g a)[k]? = some b ∧
      n = ((l.take m).flatMap g).length + k := by
  induction l generalizing n with
  | nil => cases h
  | cons first l ih =>
    rw [List.flatMap_cons] at h
    by_cases hn : n < (g first).length
    · rw [List.getElem?_append_left hn] at h
      exact ⟨0, first, n, rfl, h, by simp⟩
    · rw [List.getElem?_append_right (Nat.le_of_not_lt hn)] at h
      obtain ⟨m, a, k, ha, hb, hk⟩ := ih h
      refine ⟨m + 1, a, k, ha, hb, ?_⟩
      rw [List.take_succ_cons, List.flatMap_cons, List.length_append]
      omega

/-- Every instruction stands in the body of a symbol. -/
theorem exists_body_of_code (h : t.Rooted) {n : Nat} {i : Instruction}
    (hn : (layout t).code[n]? = some i) :
    ∃ id k, id < t.size ∧ (bodyOf t id)[k]? = some i ∧ n = offsetOf t id + k := by
  rw [code_layout] at hn
  obtain ⟨m, id, k, hid, hi, hplace⟩ := exists_place_of_flatMap hn
  refine ⟨id, k, h.mem_preorder.1 (List.mem_of_getElem? hid), hi, ?_⟩
  obtain ⟨hm, rfl⟩ := List.getElem?_eq_some_iff.1 hid
  rw [hplace, offsetOf, h.nodup_preorder.idxOf_getElem]

/-- A body ends before the next one starts. -/
theorem offsetOf_add_le (h : t.Rooted) {place : Nat} (hid : id < t.size)
    (hplace : (t.preorder [0, 1]).idxOf id < place) :
    offsetOf t id + (bodyOf t id).length ≤ (upTo t place).length := by
  have hget := List.getElem?_idxOf (h.mem_preorder.2 hid)
  have hlength := (upTo_isPrefix t (Nat.succ_le_of_lt hplace)).length_le
  rw [upTo_succ hget, List.length_append] at hlength
  exact hlength

/-- Which bodies start before a place inside of a body. -/
theorem offsetOf_le_iff (h : t.Rooted) {j k : Nat} (hid : id < t.size)
    (hk : k < (bodyOf t id).length) :
    offsetOf t j ≤ offsetOf t id + k ↔
      (t.preorder [0, 1]).idxOf j ≤ (t.preorder [0, 1]).idxOf id := by
  constructor
  · intro hle
    apply Decidable.byContradiction
    -- Otherwise the whole body would lie in front.
    intro hlt
    have hend := offsetOf_add_le h hid (Nat.lt_of_not_le hlt)
    rw [← offsetOf_eq] at hend
    omega
  · intro hle
    have hlength := (upTo_isPrefix t hle).length_le
    rw [← offsetOf_eq, ← offsetOf_eq] at hlength
    omega

theorem offsetOf_add_lt (h : t.Rooted) {k : Nat} (hid : id < t.size)
    (hk : k < (bodyOf t id).length) :
    offsetOf t id + k < (layout t).code.length := by
  have hend := offsetOf_add_le h hid (Nat.lt_succ_self _)
  have hcode := (upTo_isPrefix_code t ((t.preorder [0, 1]).idxOf id).succ).length_le
  omega

/-! ### Relocation -/

theorem getElem?_of_mapM {ε β : Type} {f : α → Except ε β} {l : List α} {l' : List β}
    (h : l.mapM f = .ok l') : l'.length = l.length ∧
      ∀ (n : Nat) b, l'[n]? = some b → ∃ a, l[n]? = some a ∧ f a = .ok b := by
  induction l generalizing l' with
  | nil =>
    cases h
    exact ⟨rfl, fun n b hb => by cases hb⟩
  | cons a l ih =>
    rw [List.mapM_cons] at h
    cases ha : f a with
    | error e =>
      rw [ha] at h
      cases h
    | ok b =>
      rw [ha] at h
      -- Both the first and the rest have succeeded, as the whole has.
      cases hl : l.mapM f with
      | error e =>
        rw [hl] at h
        cases h
      | ok rest =>
        rw [hl] at h
        cases h
        obtain ⟨hlength, hget⟩ := ih hl
        refine ⟨congrArg (· + 1) hlength, fun n x hx => ?_⟩
        cases n with
        | zero =>
          cases hx
          exact ⟨a, rfl, ha⟩
        | succ n => exact hget n x hx

theorem exists_mapM {ε β : Type} {f : α → Except ε β} {l : List α}
    (h : ∀ a ∈ l, ∃ b, f a = .ok b) : ∃ l', l.mapM f = .ok l' := by
  induction l with
  | nil => exact ⟨[], rfl⟩
  | cons a l ih =>
    obtain ⟨b, hb⟩ := h a List.mem_cons_self
    obtain ⟨l', hl'⟩ := ih fun a ha => h a (List.mem_cons_of_mem _ ha)
    refine ⟨b :: l', ?_⟩
    rw [List.mapM_cons, hb, hl']
    rfl

/-- What relocation makes of the program: every instruction stays where it is, and each of
    its operands is one of before, relocated. -/
theorem relocateCode_eq_ok {l : Layout} {instructions : List Instruction}
    (h : l.relocateCode t = .ok instructions) : instructions.length = l.code.length ∧
      ∀ (n : Nat) i, instructions[n]? = some i → ∃ i₀, l.code[n]? = some i₀ ∧ i.opcode = i₀.opcode ∧
        ∀ x ∈ i.operands, ∃ x₀ ∈ i₀.operands, l.relocate t x₀ = .ok x := by
  obtain ⟨hlength, hget⟩ := getElem?_of_mapM h
  refine ⟨hlength, fun n i hi => ?_⟩
  obtain ⟨i₀, hi₀, hrelocate⟩ := hget n i hi
  refine ⟨i₀, hi₀, ?_⟩
  cases hoperands : i₀.operands.mapM (l.relocate t) with
  | error e =>
    rw [hoperands] at hrelocate
    cases hrelocate
  | ok operands =>
    rw [hoperands] at hrelocate
    cases hrelocate
    refine ⟨rfl, fun x hx => ?_⟩
    obtain ⟨k, hk⟩ := List.mem_iff_getElem?.1 hx
    obtain ⟨x₀, hx₀, hx⟩ := (getElem?_of_mapM hoperands).2 k x hk
    exact ⟨x₀, List.mem_of_getElem? hx₀, hx⟩

end StateScript.Walk
