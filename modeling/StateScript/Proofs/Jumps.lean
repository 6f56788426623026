import StateScript.Proofs.Compiled
import StateScript.Proofs.Peephole
import StateScript.Proofs.Walk.Written

/-! # Jumps stay inside of their functions

  Entry points divide a program into the bodies of its functions. Two places lie together if
  they are on the same side of every entry point. In a linked program a jump and where it
  leads lie together, and so do the entry point of a function and the places of its targets.
  Since every body ends with a return, which is never removed, shortening keeps places
  together and apart.
-/

namespace StateScript

namespace Peephole

variable {code : List Instruction} {symbols : List Entry} {i : Instruction} {e p : Nat}

/-- The entry points of the functions among some symbols. -/
def entries (symbols : List Entry) : List Nat :=
  symbols.filterMap fun e => e.kind.function?.bind (·.entryPoint)

/-- Two places of the program in the body of one function. -/
structure Joined (symbols : List Entry) (code : List Instruction) (p q : Nat) : Prop where
  left : p < code.length
  right : q < code.length
  sides : ∀ e ∈ entries symbols, e ≤ p ↔ e ≤ q

/-- A return stands before every entry point and at the end of the program. -/
def Parted (symbols : List Entry) (code : List Instruction) : Prop :=
  ∀ e, e ∈ entries symbols ∨ e = code.length → ∀ p, e = p + 1 →
    ∃ i, code[p]? = some i ∧ i.opcode = .ret

/-- Jumps and targets stay inside of their functions. -/
structure Confined (symbols : List Entry) (code : List Instruction) : Prop where
  parted : Parted symbols code
  jumps : ∀ p i, code[p]? = some i → ∀ k ∈ i.targets,
    ∃ q : Nat, k = (q : Int) ∧ Joined symbols code p q
  targets : ∀ x ∈ symbols, ∀ place, x.kind = .target place → ∃ owner entry q, x.scope = some owner ∧
    (symbols[owner]?.bind fun e => e.kind.function?.bind (·.entryPoint)) = some entry ∧
    place = some q ∧ Joined symbols code entry q

theorem mem_sites_of_mem_entries (he : e ∈ entries symbols) :
    (sites code symbols).contains e = true := by
  obtain ⟨x, hx, hentry⟩ := List.mem_filterMap.1 he
  have hlanding : x.kind.landing? = some e := by
    cases hk : x.kind with
    | function f =>
      rw [hk] at hentry
      exact hentry
    | _ =>
      rw [hk] at hentry
      cases hentry
  simp only [List.contains_eq_mem, decide_eq_true_eq, sites, List.mem_append, List.mem_filterMap]
  exact .inr ⟨x, hx, hlanding⟩

/-! ### Replacing pairs -/

/-- An instruction that does more than move values is no part of a pair. -/
theorem getElem?_fusePairs_steers (isSite : Nat → Bool) (hi : code[p]? = some i)
    (hsteers : i.opcode.movesValues = false) : (fusePairs isSite 0 code).1[p]? = some i := by
  have hmoves : i.opcode.movesValues ≠ true := by
    rw [hsteers]
    exact Bool.false_ne_true
  rcases getElem?_fusePairs isSite 0 code p with hsame | hpair | ⟨k, rfl, hpair⟩
  · exact hsame.trans hi
  · obtain ⟨a, b, c, ha, -, -, -, hfuse, -⟩ := hpair
    cases ha.symm.trans hi
    exact absurd (operands_of_fuse? hfuse).1 hmoves
  · obtain ⟨a, b, c, -, hb, -, -, hfuse, -⟩ := hpair
    cases hb.symm.trans hi
    exact absurd (operands_of_fuse? hfuse).2.1 hmoves

theorem getElem?_fusePairs_ret (isSite : Nat → Bool) (hi : code[p]? = some i)
    (hret : i.opcode = .ret) : (fusePairs isSite 0 code).1[p]? = some i :=
  getElem?_fusePairs_steers isSite hi (by rw [hret]; rfl)

theorem mem_targets {k : Int} : k ∈ i.targets ↔ Operand.instruction k ∈ i.operands := by
  unfold Instruction.targets
  rw [List.mem_filterMap]
  constructor
  · rintro ⟨x, hx, hk⟩
    cases x <;> cases hk
    exact hx
  · intro h
    exact ⟨_, h, rfl⟩

theorem Confined.fusePairs (h : Confined symbols code) :
    Confined symbols (fusePairs (sites code symbols).contains 0 code).1 := by
  have hlength := length_fusePairs (sites code symbols).contains 0 code
  have hjoined : ∀ {p q : Nat}, Joined symbols code p q →
      Joined symbols (Peephole.fusePairs (sites code symbols).contains 0 code).1 p q := by
    rintro p q ⟨hp, hq, hsides⟩
    exact ⟨hlength.symm ▸ hp, hlength.symm ▸ hq, hsides⟩
  refine ⟨?_, ?_, fun x hx place hplace => ?_⟩
  · intro e he p hp
    rw [hlength] at he
    obtain ⟨i, hi, hret⟩ := h.parted e he p hp
    exact ⟨i, getElem?_fusePairs_ret _ hi hret, hret⟩
  · intro p i hi k hk
    -- An instruction is as it was, or what a pair has become, or a blank behind one.
    rcases getElem?_fusePairs (sites code symbols).contains 0 code p with
        hsame | hpair | ⟨j, rfl, hpair⟩
    · obtain ⟨q, hkq, hq⟩ := h.jumps p i (hsame ▸ hi) k hk
      exact ⟨q, hkq, hjoined hq⟩
    · obtain ⟨a, b, c, ha, hb, hc, -, hfuse, hsite⟩ := hpair
      cases hc.symm.trans hi
      rcases (operands_of_fuse? hfuse).2.2.2.2 _ (mem_targets.1 hk) with hfirst | hsecond
      · obtain ⟨q, hkq, hq⟩ := h.jumps p a ha k (mem_targets.2 hfirst)
        exact ⟨q, hkq, hjoined hq⟩
      · -- The second of the pair is no entry point, so the first lies on the same side.
        obtain ⟨q, hkq, hq⟩ := h.jumps (p + 1) b hb k (mem_targets.2 hsecond)
        refine ⟨q, hkq, hjoined ⟨(List.getElem?_eq_some_iff.1 ha).1, hq.right, fun e he => ?_⟩⟩
        have hne : e ≠ p + 1 := by
          rintro rfl
          rw [Nat.zero_add, mem_sites_of_mem_entries he] at hsite
          cases hsite
        rw [← hq.sides e he]
        omega
    · obtain ⟨a, b, c, -, -, -, hblank, -, -⟩ := hpair
      cases hblank.symm.trans hi
      cases hk
  · obtain ⟨owner, entry, q, hscope, hentry, hq, hsame⟩ := h.targets x hx place hplace
    exact ⟨owner, entry, q, hscope, hentry, hq, hjoined hsame⟩

/-! ### Removing instructions that do nothing -/

theorem renumber_mono (code : List Instruction) {q : Nat} (h : p ≤ q) :
    renumber code p ≤ renumber code q :=
  (List.take_sublist_take_left h).countP_le

/-- Places before an entry point stay before it, since the return there is kept. -/
theorem renumber_lt (h : Parted symbols code) (he : e ∈ entries symbols ∨ e = code.length)
    (hp : p < e) : renumber code p < renumber code e := by
  obtain ⟨r, rfl⟩ : ∃ r, e = r + 1 := ⟨e - 1, by omega⟩
  obtain ⟨i, hi, hret⟩ := h (r + 1) he r rfl
  have hkept : isKept i = true := by
    unfold isKept
    rw [hret]
    rfl
  have hmono := renumber_mono code (Nat.le_of_lt_succ hp)
  rw [renumber_succ code r hi, hkept]
  simp only [if_true]
  omega

theorem renumber_le_iff (h : Parted symbols code) (he : e ∈ entries symbols) :
    renumber code e ≤ renumber code p ↔ e ≤ p := by
  constructor
  · intro hle
    apply Decidable.byContradiction
    intro hlt
    have := renumber_lt h (.inl he) (Nat.lt_of_not_le hlt)
    omega
  · exact renumber_mono code

theorem entryPoint_renumber (g : Nat → Nat) (k : SymbolKind) :
    ((k.renumber g).function?.bind (·.entryPoint)) = (k.function?.bind (·.entryPoint)).map g := by
  cases k <;> rfl

theorem entries_map (g : Nat → Nat) :
    entries (symbols.map (moveEntry g)) = (entries symbols).map g := by
  unfold entries
  rw [List.filterMap_map, List.map_filterMap]
  exact List.filterMap_congr fun e _ => entryPoint_renumber g e.kind

theorem Joined.compact (hparted : Parted symbols code) {q : Nat} (h : Joined symbols code p q) :
    Joined (symbols.map (moveEntry (renumber code))) (compact code) (renumber code p)
      (renumber code q) := by
  refine ⟨?_, ?_, fun e he => ?_⟩
  · rw [length_compact]
    exact renumber_lt hparted (.inr rfl) h.left
  · rw [length_compact]
    exact renumber_lt hparted (.inr rfl) h.right
  · rw [entries_map] at he
    obtain ⟨e, hold, rfl⟩ := List.mem_map.1 he
    rw [renumber_le_iff hparted hold, renumber_le_iff hparted hold]
    exact h.sides e hold

theorem Parted.compact (h : Parted symbols code) :
    Parted (symbols.map (moveEntry (renumber code))) (compact code) := by
  intro e' he' p' hp'
  obtain ⟨e, he, rfl⟩ : ∃ e, (e ∈ entries symbols ∨ e = code.length) ∧ renumber code e = e' := by
    rcases he' with he' | rfl
    · rw [entries_map] at he'
      obtain ⟨e, he, rfl⟩ := List.mem_map.1 he'
      exact ⟨e, .inl he, rfl⟩
    · exact ⟨code.length, .inr rfl, (length_compact code).symm⟩
  cases e with
  | zero => cases hp'
  | succ p =>
    obtain ⟨i, hi, hret⟩ := h (p + 1) he p rfl
    -- The return in front of a body is kept, so that it still stands there.
    have hkept : isKept i = true := by
      unfold isKept
      rw [hret]
      rfl
    rw [renumber_succ code p hi, hkept] at hp'
    cases hp'
    exact ⟨_, getElem?_compact code p hi hkept, hret⟩

theorem exists_getElem?_of_filter {p' : Nat} (h : (code.filter isKept)[p']? = some i) :
    ∃ p, code[p]? = some i ∧ p' = renumber code p := by
  induction code generalizing p' with
  | nil => cases h
  | cons a rest ih =>
    by_cases ha : isKept a = true
    · rw [List.filter_cons_of_pos ha] at h
      cases p' with
      | zero => exact ⟨0, h, rfl⟩
      | succ p' =>
        obtain ⟨p, hp, rfl⟩ := ih h
        exact ⟨p + 1, hp, by simp [renumber, ha]⟩
    · rw [List.filter_cons_of_neg ha] at h
      obtain ⟨p, hp, rfl⟩ := ih h
      exact ⟨p + 1, hp, by simp [renumber, ha]⟩

/-- Every instruction that is left is a kept one under its new number. -/
theorem exists_kept {p' : Nat} {i' : Instruction} (h : (compact code)[p']? = some i') :
    ∃ p i, code[p]? = some i ∧ p' = renumber code p ∧ i' = moveInstruction (renumber code) i := by
  unfold compact at h
  rw [List.getElem?_map] at h
  obtain ⟨i, hi, rfl⟩ := Option.map_eq_some_iff.1 h
  obtain ⟨p, hp, rfl⟩ := exists_getElem?_of_filter hi
  exact ⟨p, i, hp, rfl, rfl⟩

theorem Confined.compact (h : Confined symbols code) :
    Confined (symbols.map (moveEntry (renumber code))) (compact code) := by
  refine ⟨h.parted.compact, fun p' i' hi' k' hk' => ?_, fun x' hx' place' hplace' => ?_⟩
  · obtain ⟨p, i, hi, rfl, rfl⟩ := exists_kept hi'
    -- A jump leads to a place of the code, so its operand is not negative.
    have hnonneg : ∀ k ∈ i.targets, 0 ≤ k := by
      intro k hk
      obtain ⟨q, rfl, -⟩ := h.jumps p i hi k hk
      exact Int.natCast_nonneg q
    rw [targets_moveInstruction _ hnonneg] at hk'
    obtain ⟨k, hk, rfl⟩ := List.mem_map.1 hk'
    obtain ⟨q, rfl, hq⟩ := h.jumps p i hi k hk
    exact ⟨renumber code q, rfl, hq.compact h.parted⟩
  · obtain ⟨x, hx, rfl⟩ := List.mem_map.1 hx'
    -- Renumbering keeps the sort of a symbol, so this was a target before.
    obtain ⟨place, hplace⟩ : ∃ place, x.kind = .target place := by
      change x.kind.renumber (renumber code) = _ at hplace'
      cases hk : x.kind with
      | target place => exact ⟨place, rfl⟩
      | _ =>
        rw [hk] at hplace'
        cases hplace'
    obtain ⟨owner, entry, q, hscope, hentry, rfl, hsame⟩ := h.targets x hx place hplace
    refine ⟨owner, renumber code entry, renumber code q, hscope, ?_, ?_, hsame.compact h.parted⟩
    · rw [List.getElem?_map]
      obtain ⟨e, he, hentry⟩ := Option.bind_eq_some_iff.1 hentry
      rw [he]
      exact (entryPoint_renumber _ e.kind).trans (congrArg _ hentry)
    · change x.kind.renumber (renumber code) = _ at hplace'
      rw [hplace] at hplace'
      cases hplace'
      rfl

/-- Any number of rounds. -/
theorem Confined.rounds (h : Confined symbols code) (n : Nat) :
    Confined (rounds n code symbols).symbols (rounds n code symbols).code := by
  induction n generalizing code symbols with
  | zero => exact h
  | succ n ih =>
    rw [rounds_succ]
    dsimp only
    split
    · exact h
    · exact ih h.fusePairs.compact

end Peephole

namespace Walk

variable {i : Instruction} {l : Layout} {instructions : List Instruction}

open Peephole

/-! ### Bodies in the table -/

variable {t : Table} {id : Nat}

theorem bodyOf_of_function? {f : Function} (hf : t.function? id = some f)
    (hbody : hasBody f = true) :
    bodyOf t id = f.code.toList := by
  unfold bodyOf
  rw [codeOf?_eq_some.2 ⟨f, hf, hbody, rfl⟩]
  rfl

/-- The operations of a function with a body. -/
theorem map_op_bodyOf (h : t.IsDefined id) : (bodyOf t id).map Instruction.op = t.code id := by
  obtain ⟨f, hf, hbody⟩ := h
  rw [bodyOf_of_function? hf hbody, code_of_function? hf]

/-- Only functions with a body have one. -/
theorem isDefined_of_mem_bodyOf (h : i ∈ bodyOf t id) : t.IsDefined id := by
  unfold bodyOf at h
  cases hcode : codeOf? t id with
  | none =>
    rw [hcode] at h
    cases h
  | some c =>
    obtain ⟨f, hf, hbody, -⟩ := codeOf?_eq_some.1 hcode
    exact ⟨f, hf, hbody⟩

theorem start?_of_isDefined (hrooted : t.Rooted) (h : t.IsDefined id) :
    (layout t).start? id = some (offsetOf t id) := by
  obtain ⟨f, hf, hbody⟩ := h
  rw [start?_layout hrooted, codeOf?_eq_some.2 ⟨f, hf, hbody, rfl⟩]
  rfl

theorem Complete.belongs (h : Complete t) (hi : i ∈ bodyOf t id) : Belongs t id i.op := by
  have hdefined := isDefined_of_mem_bodyOf hi
  have hop : i.op ∈ t.code id := map_op_bodyOf hdefined ▸ List.mem_map_of_mem hi
  exact (h.code id i.op hop).2

theorem Complete.getLast?_bodyOf (h : Complete t) (hi : (bodyOf t id).getLast? = some i) :
    i.opcode = .ret := by
  have hdefined := isDefined_of_mem_bodyOf (List.mem_of_getLast? hi)
  refine h.ends id i.op ?_
  rw [← map_op_bodyOf hdefined, List.getLast?_map, hi]
  rfl

/-- Whatever stands before a place of the traversal ends with a return. -/
theorem Complete.getLast?_upTo (h : Complete t) {place : Nat}
    (hi : (upTo t place).getLast? = some i) : i.opcode = .ret := by
  unfold upTo at hi
  generalize (t.preorder [0, 1]).take place = ids at hi
  induction ids with
  | nil => cases hi
  | cons id ids ih =>
    rw [List.flatMap_cons, List.getLast?_append] at hi
    rcases Option.or_eq_some_iff.1 hi with hrest | ⟨-, hfirst⟩
    · exact ih hrest
    · exact h.getLast?_bodyOf hfirst

/-! ### The linked program -/

/-- Where a target is in the program. -/
theorem destination?_eq_some {place : Nat} : l.destination? t id = some place ↔
    ∃ bound owner start, t.kind? id = some (.target (some bound)) ∧ t.scope? id = some owner ∧
      l.start? owner = some start ∧ place = start + bound := by
  unfold Layout.destination? Table.kind? Table.scope?
  cases t.get? id with
  | none => simp
  | some x =>
    obtain ⟨index, identifier, scope, children, kind⟩ := x
    cases kind with
    | target bound => cases bound <;> cases scope <;> simp [@eq_comm _ place]
    | _ => simp

theorem relocate_target {x : Operand} (h : l.relocate t (.target id) = .ok x) :
    ∃ place : Nat, l.destination? t id = some place ∧ x = .instruction place := by
  cases hplace : l.destination? t id with
  | none => simp [Layout.relocate, hplace] at h
  | some place =>
    simp only [Layout.relocate, hplace, Except.ok.injEq] at h
    exact ⟨place, rfl, h.symm⟩

/-- The entry point in the entry of a function. -/
theorem entryPoint_entryOf (t : Table) (id : Nat) (l : Layout) (number : Nat) :
    (l.entryOf t number id).bind (fun e => e.kind.function?.bind (·.entryPoint)) =
      (t.function? id).bind fun _ => l.start? id := by
  unfold Layout.entryOf Table.function? Table.kind?
  cases t.get? id with
  | none => rfl
  | some x => cases hk : x.kind <;> simp [hk, SymbolKind.function?]

/-- The entry of a target. -/
theorem exists_target_of_entryOf {number : Nat} {e : Entry} {place : Option Nat}
    (h : l.entryOf t number id = some e) (hplace : e.kind = .target place) :
    (∃ bound, t.kind? id = some (.target bound)) ∧ place = l.destination? t id ∧
      e.scope = (t.scope? id).map l.number := by
  unfold Layout.entryOf at h
  obtain ⟨x, hx, rfl⟩ := Option.map_eq_some_iff.1 h
  unfold Table.kind? Table.scope?
  rw [hx]
  cases hk : x.kind with
  | target bound =>
    simp only [hk] at hplace
    cases hplace
    exact ⟨⟨bound, congrArg some hk⟩, rfl, rfl⟩
  | _ =>
    simp only [hk] at hplace
    cases hplace

section Linked

variable (hrooted : t.Rooted) (hcomplete : Complete t)
include hrooted

theorem exists_offset_of_mem_entries {e : Nat} (he : e ∈ entries ((layout t).symbols t)) :
    ∃ id, e = offsetOf t id := by
  obtain ⟨x, hx, hentry⟩ := List.mem_filterMap.1 he
  obtain ⟨n, hn⟩ := List.mem_iff_getElem?.1 hx
  obtain ⟨id, hid, rfl, hentryOf⟩ := exists_symbol hrooted hn
  have hstart := entryPoint_entryOf t id (layout t) ((layout t).number id)
  rw [hentryOf, Option.bind_some, hentry] at hstart
  obtain ⟨f, -, hstart⟩ := Option.bind_eq_some_iff.1 hstart.symm
  rw [start?_layout hrooted] at hstart
  split at hstart
  · exact ⟨id, (Option.some.inj hstart).symm⟩
  · cases hstart

/-- Two places in the body of one function lie together. -/
theorem joined_of_body {symbols : List Entry} (hsymbols : symbols = (layout t).symbols t)
    (hlength : instructions.length = (layout t).code.length) (hid : id < t.size) {p q : Nat}
    (hp : p < (bodyOf t id).length) (hq : q < (bodyOf t id).length) :
    Joined symbols instructions (offsetOf t id + p) (offsetOf t id + q) := by
  refine ⟨?_, ?_, fun e he => ?_⟩
  · rw [hlength]
    exact offsetOf_add_lt hrooted hid hp
  · rw [hlength]
    exact offsetOf_add_lt hrooted hid hq
  · rw [hsymbols] at he
    obtain ⟨j, rfl⟩ := exists_offset_of_mem_entries hrooted he
    rw [offsetOf_le_iff hrooted hid hp, offsetOf_le_iff hrooted hid hq]

include hcomplete

/-- Complete code has nothing in it that relocation fails at. -/
theorem exists_relocated : ∃ instructions, (layout t).relocateCode t = .ok instructions := by
  refine exists_mapM fun i hi => ?_
  obtain ⟨p, hp⟩ := List.mem_iff_getElem?.1 hi
  obtain ⟨f, k, -, hk, -⟩ := exists_body_of_code hrooted hp
  obtain ⟨operands, hoperands⟩ : ∃ operands, i.operands.mapM ((layout t).relocate t) =
      .ok operands := by
    refine exists_mapM fun x hx => ?_
    rcases hcomplete.belongs (List.mem_of_getElem? hk) x hx with suits | ⟨id, rfl, haims⟩
    · cases x with
      | target => exact False.elim suits
      | _ => exact ⟨_, rfl⟩
    -- A target is bound, in a function that has a start.
    · obtain ⟨bound, hkind⟩ := haims.kind
      obtain ⟨owner, place, rfl, hscope, hdefined, -⟩ := hcomplete.target id bound hkind
      have hplace := destination?_eq_some.2
        ⟨place, owner, _, hkind, hscope, start?_of_isDefined hrooted hdefined, rfl⟩
      simp only [Layout.relocate, hplace]
      exact ⟨_, rfl⟩
  rw [hoperands]
  exact ⟨_, rfl⟩

theorem parted_linked (hcode : (layout t).relocateCode t = .ok instructions) :
    Parted ((layout t).symbols t) instructions := by
  obtain ⟨hlength, hget⟩ := relocateCode_eq_ok hcode
  intro e he p hp
  -- Entry points and the end are where the bodies before some place end.
  obtain ⟨place, rfl⟩ : ∃ place, e = (upTo t place).length := by
    rcases he with he | rfl
    · obtain ⟨id, rfl⟩ := exists_offset_of_mem_entries hrooted he
      exact ⟨_, rfl⟩
    · refine ⟨(t.preorder [0, 1]).length, ?_⟩
      rw [hlength, code_layout, upTo, List.take_length]
  obtain ⟨i, hi⟩ : ∃ i, (upTo t place)[p]? = some i := ⟨_, List.getElem?_eq_getElem (by omega)⟩
  have hlast : (upTo t place).getLast? = some i := by
    rw [List.getLast?_eq_getElem?, hp]
    exact hi
  have hold : (layout t).code[p]? = some i := by
    obtain ⟨rest, hrest⟩ := upTo_isPrefix_code t place
    rw [← hrest, List.getElem?_append_left (by omega)]
    exact hi
  obtain ⟨i', hi'⟩ : ∃ i', instructions[p]? = some i' :=
    ⟨_, List.getElem?_eq_getElem (hlength ▸ (List.getElem?_eq_some_iff.1 hold).1)⟩
  obtain ⟨i₀, hi₀, hopcode, -⟩ := hget p i' hi'
  cases hold.symm.trans hi₀
  exact ⟨i', hi', hopcode.trans (hcomplete.getLast?_upTo hlast)⟩

theorem confined_linked (hcode : (layout t).relocateCode t = .ok instructions) :
    Confined ((layout t).symbols t) instructions := by
  obtain ⟨hlength, hget⟩ := relocateCode_eq_ok hcode
  refine ⟨parted_linked hrooted hcomplete hcode, fun p i hi k hk => ?_, fun x hx place hplace => ?_⟩
  · obtain ⟨i₀, hi₀, -, hoperands⟩ := hget p i hi
    obtain ⟨x₀, hx₀, hrelocate⟩ := hoperands _ (mem_targets.1 hk)
    obtain ⟨f, n, hf, hn, rfl⟩ := exists_body_of_code hrooted hi₀
    -- Before it is relocated, a reference to an instruction is a target of the function.
    obtain ⟨j, rfl, ⟨hscope, -⟩⟩ : ∃ j, x₀ = .target j ∧ t.IsTargetOf j f := by
      rcases hcomplete.belongs (List.mem_of_getElem? hn) x₀ hx₀ with suits | htarget
      · cases x₀ <;> first | exact False.elim suits | cases hrelocate
      · exact htarget
    obtain ⟨place, hplace, hk⟩ := relocate_target hrelocate
    cases hk
    obtain ⟨bound, owner, start, hkind, howner, hstart, rfl⟩ := destination?_eq_some.1 hplace
    cases howner.symm.trans hscope
    obtain ⟨f', b, hb, hf', hdefined, hinside⟩ := hcomplete.target j _ hkind
    cases hb
    cases hf'.symm.trans hscope
    rw [start?_of_isDefined hrooted hdefined] at hstart
    cases hstart
    rw [← map_op_bodyOf hdefined, List.length_map] at hinside
    exact ⟨offsetOf t f + bound, rfl, joined_of_body hrooted rfl hlength hf
      (List.getElem?_eq_some_iff.1 hn).1 hinside⟩
  · obtain ⟨n, hn⟩ := List.mem_iff_getElem?.1 hx
    obtain ⟨id, hid, rfl, hentryOf⟩ := exists_symbol hrooted hn
    obtain ⟨⟨bound, hkind⟩, rfl, hscope⟩ := exists_target_of_entryOf hentryOf hplace
    obtain ⟨f, b, rfl, hf, hdefined, hinside⟩ := hcomplete.target id bound hkind
    have hstart := start?_of_isDefined hrooted hdefined
    have hsize : f < t.size := Nat.lt_trans (hrooted.wellFormed.scope_lt id f hf) hid
    rw [← map_op_bodyOf hdefined, List.length_map] at hinside
    refine ⟨(layout t).number f, offsetOf t f, offsetOf t f + b, ?_, ?_, ?_, ?_⟩
    · rw [hscope, hf]
      rfl
    · obtain ⟨g, hg, -⟩ := hdefined
      rw [exists_entry hrooted hsize, entryPoint_entryOf, hg]
      exact hstart
    · exact destination?_eq_some.2 ⟨b, f, _, hkind, hf, hstart, rfl⟩
    · exact joined_of_body hrooted rfl hlength hsize (p := 0) (by omega) hinside

end Linked

end Walk

namespace Object

/-- Every jump and every target leads into the function that it belongs to. -/
structure Resolved (o : Object) : Prop where
  /-- Every target is bound, to an instruction of the function that owns it. -/
  targets : ∀ e ∈ o.symbols, ∀ place, e.kind = .target place →
    ∃ owner f entry q, e.scope = some owner ∧ o.function? owner = some f ∧
      f.entryPoint = some entry ∧
      place = some q ∧ entry ≤ q ∧ q < o.bodyEnd entry
  /-- Every instruction that the body of a function refers to is one of that body. -/
  jumps : ∀ index f entry, o.function? index = some f → f.entryPoint = some entry →
    ∀ i ∈ o.functionBody index, ∀ k ∈ i.targets, (entry : Int) ≤ k ∧ k < o.bodyEnd entry

variable {o : Object} {entry p q : Nat}

theorem mem_entries_of_function? {index : Nat} {f : Function} (hf : o.function? index = some f)
    (hentry : f.entryPoint = some entry) : entry ∈ Peephole.entries o.symbols := by
  obtain ⟨e, he, hf⟩ := Option.bind_eq_some_iff.1 hf
  refine List.mem_filterMap.2 ⟨e, List.mem_of_getElem? he, ?_⟩
  rw [hf]
  exact hentry

/-- A body ends at an entry point behind its own or with the program. -/
theorem bodyEnd_cases (o : Object) (entry : Nat) :
    (o.bodyEnd entry ∈ Peephole.entries o.symbols ∧ entry < o.bodyEnd entry) ∨
      o.bodyEnd entry = o.instructions.length := by
  unfold bodyEnd
  cases hmin : (o.entryPoints.filter (entry < ·)).min? with
  | none => exact .inr rfl
  | some m =>
    have hmem := List.mem_filter.1 (List.min?_mem hmin)
    exact .inl ⟨hmem.1, of_decide_eq_true hmem.2⟩

theorem lt_bodyEnd_of_joined (h : Peephole.Joined o.symbols o.instructions p q)
    (hp : p < o.bodyEnd entry) :
    q < o.bodyEnd entry := by
  rcases o.bodyEnd_cases entry with ⟨hmem, -⟩ | hend
  · have hsides := h.sides _ hmem
    omega
  · rw [hend]
    exact h.right

theorem resolved_of_confined (h : Peephole.Confined o.symbols o.instructions) : o.Resolved where
  targets e he place hplace := by
    obtain ⟨owner, entry, q, hscope, hentry, rfl, hjoined⟩ := h.targets e he place hplace
    obtain ⟨x, hx, hentry⟩ := Option.bind_eq_some_iff.1 hentry
    obtain ⟨f, hf, hentry⟩ := Option.bind_eq_some_iff.1 hentry
    have hfunction : o.function? owner = some f := Option.bind_eq_some_iff.2 ⟨x, hx, hf⟩
    have hmem := mem_entries_of_function? hfunction hentry
    refine ⟨owner, f, entry, q, hscope, hfunction, hentry, rfl, ?_, lt_bodyEnd_of_joined hjoined ?_⟩
    -- A target lies behind the entry of its function and before the next one.
    · exact (hjoined.sides entry hmem).1 (Nat.le_refl entry)
    · rcases o.bodyEnd_cases entry with ⟨-, hlt⟩ | hend
      · exact hlt
      · rw [hend]
        exact hjoined.left
  jumps index f entry hf hentry i hi k hk := by
    unfold functionBody at hi
    rw [hf, Option.bind_some, hentry] at hi
    obtain ⟨n, hn⟩ := List.mem_iff_getElem?.1 hi
    rw [List.getElem?_drop, List.getElem?_take] at hn
    split at hn
    · next hlt =>
      obtain ⟨q, rfl, hjoined⟩ := h.jumps (entry + n) i hn k hk
      have hmem := mem_entries_of_function? hf hentry
      have hleft : entry ≤ q := (hjoined.sides entry hmem).1 (Nat.le_add_right entry n)
      have hright := lt_bodyEnd_of_joined hjoined hlt
      omega
    · cases hn

end Object

namespace Compilation

open Walk

theorem confined_shorten {o : Object} (h : Peephole.Confined o.symbols o.instructions) :
    Peephole.Confined (shorten o).1.symbols (shorten o).1.instructions := by
  unfold shorten
  split
  · exact h
  · exact h.rounds _

/-- In every object of a compilation each target is bound inside of the function that owns it,
    and each jump leads to an instruction of the function that it stands in. -/
theorem jumps_resolved {options : Options} {tokens : List Token} {o : Object}
    (h : (ofTokens options tokens).object = some o) : o.Resolved := by
  obtain ⟨s, t, o', hcompiled, rfl⟩ := compiled_of_ofTokens h
  obtain ⟨instructions, hcode, rfl⟩ := hcompiled.linked
  have hlinked := confined_linked hcompiled.rooted hcompiled.complete hcode
  exact Object.resolved_of_confined (confined_shorten hlinked)

/-- Jumps in two functions, around pairs that are replaced:
    `void f() { while (b) { x = 1; } } void g() { if (b) { x = 2; } } bool b; int x;`. -/
def jumpsOfTwoFunctions : List Token :=
  [mark .voidType, wordOf .identifier "f", mark .openParen, mark .closeParen, mark .openBrace,
    mark .kwWhile, mark .openParen, wordOf .identifier "b", mark .closeParen, mark .openBrace,
    wordOf .identifier "x", mark .assign, wordOf .integerLiteral "1", mark .semicolon,
    mark .closeBrace, mark .closeBrace, mark .voidType, wordOf .identifier "g", mark .openParen,
    mark .closeParen, mark .openBrace, mark .kwIf, mark .openParen, wordOf .identifier "b",
    mark .closeParen, mark .openBrace, wordOf .identifier "x", mark .assign,
    wordOf .integerLiteral "2", mark .semicolon, mark .closeBrace, mark .closeBrace,
    mark .boolType, wordOf .identifier "b", mark .semicolon, mark .intType,
    wordOf .identifier "x", mark .semicolon]

theorem jumps_resolved_twoFunctions : ∃ o,
    (ofTokens { flags := { library := true } } jumpsOfTwoFunctions).object = some o ∧ o.Resolved ∧
      o.entryPoints = [0, 1, 7] ∧ o.instructions.flatMap (·.targets) = [6, 1, 11] := by
  have hshape : (ofTokens { flags := { library := true } } jumpsOfTwoFunctions).object.map (fun o =>
      (o.entryPoints, o.instructions.flatMap (·.targets))) = some ([0, 1, 7], [6, 1, 11]) := by
    decide +kernel
  obtain ⟨o, ho, hshape⟩ := Option.map_eq_some_iff.1 hshape
  exact ⟨o, ho, jumps_resolved ho, congrArg Prod.fst hshape, congrArg Prod.snd hshape⟩

end Compilation

end StateScript
