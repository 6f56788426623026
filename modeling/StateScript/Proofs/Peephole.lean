import StateScript.Object.Peephole
import StateScript.Proofs.Machine

/-! # Shortening keeps the behaviour

  A shortened program is compared with the one it was made from on the abstract machine.
  A round has two halves, and each is a simulation:

  - Replacing pairs keeps all numbers. The two programs run in lockstep; they differ only
    between the two instructions of a pair, where control cannot arrive from elsewhere.
  - Removing instructions that do nothing renumbers the rest. Such an instruction is a
    step of the longer program only.

  So from every entry point and every bound target the two programs are alike, and this
  is passed on from round to round.
-/

namespace StateScript

/-- Codes that do nothing or move values between the stack and the store. -/
def Opcode.movesValues : Opcode → Bool
  | .nop | .pushNull | .movNull | .popDestroy | .push _ | .pop _ | .mov _ => true
  | _ => false

namespace Peephole

variable {i x : Instruction} {fused : List Instruction}

open Machine

/-- What is asked of a program: pushes and pops have the operands that they need, only
    other instructions refer to instructions, and no reference is negative. -/
structure WellFormed (code : List Instruction) : Prop where
  push : ∀ i ∈ code, ∀ f, i.opcode = .push f → ∃ x, i.operands = [x]
  pop : ∀ i ∈ code, ∀ f, i.opcode = .pop f → ∃ y, i.operands = [y]
  targets_eq_nil : ∀ i ∈ code, i.opcode.movesValues = true → i.targets = []
  targets_nonneg : ∀ i ∈ code, ∀ k ∈ i.targets, 0 ≤ k

/-! ### What is replaced -/

/-- At `i` the pair of `code` has been replaced, and control cannot arrive between its
    two instructions. -/
def Replaced (isSite : Nat → Bool) (code fused : List Instruction) (start i : Nat) : Prop :=
  ∃ a b c, code[i]? = some a ∧ code[i + 1]? = some b ∧ fused[i]? = some c ∧
    fused[i + 1]? = some (blank b) ∧ fuse? a b = some c ∧ isSite (start + i + 1) = false

theorem replaced_cons {isSite : Nat → Bool} {code : List Instruction} {start i : Nat}
    (a a' : Instruction) (h : Replaced isSite code fused (start + 1) i) :
    Replaced isSite (a :: code) (a' :: fused) start (i + 1) := by
  obtain ⟨x, y, c, hx, hy, hc, hblank, hfuse, hsite⟩ := h
  refine ⟨x, y, c, by simpa using hx, by simpa using hy, by simpa using hc, by simpa using hblank,
    hfuse, ?_⟩
  rw [← hsite]
  congr 1
  omega

/-- Every place is as before, or the first of a replaced pair, or the second. -/
theorem getElem?_fusePairs (isSite : Nat → Bool) (start : Nat) (code : List Instruction) (i : Nat) :
    (fusePairs isSite start code).1[i]? = code[i]? ∨
      Replaced isSite code (fusePairs isSite start code).1 start i ∨
      ∃ k, i = k + 1 ∧ Replaced isSite code (fusePairs isSite start code).1 start k := by
  fun_induction fusePairs isSite start code generalizing i with
  -- The second of the two is a site, so the first stays and the walk goes on by one.
  | case1 start a b rest hsite code n hrec ih =>
    cases i with
    | zero => left; simp
    | succ i =>
      rw [hrec] at ih
      rcases ih i with h | h | ⟨k, rfl, h⟩
      · left; simpa using h
      · right; left; exact replaced_cons a a h
      · right; right; exact ⟨k + 1, rfl, replaced_cons a a h⟩
  -- A pair is replaced, and the walk goes on by two.
  | case2 start a b rest hsite c hfuse code n hrec ih =>
    have hpair : Replaced isSite (a :: b :: rest) (c :: blank b :: code) start 0 :=
      ⟨a, b, c, by simp, by simp, by simp, by simp, hfuse, by simpa using hsite⟩
    cases i with
    | zero => right; left; exact hpair
    | succ i =>
      cases i with
      | zero => right; right; exact ⟨0, rfl, hpair⟩
      | succ i =>
        rw [hrec] at ih
        rcases ih i with h | h | ⟨k, rfl, h⟩
        · left; simpa using h
        · right; left; exact replaced_cons a c (replaced_cons b (blank b) h)
        · right; right; exact ⟨k + 2, rfl, replaced_cons a c (replaced_cons b (blank b) h)⟩
  | case3 start a b rest hsite hfuse code n hrec ih =>
    cases i with
    | zero => left; simp
    | succ i =>
      rw [hrec] at ih
      rcases ih i with h | h | ⟨k, rfl, h⟩
      · left; simpa using h
      · right; left; exact replaced_cons a a h
      · right; right; exact ⟨k + 1, rfl, replaced_cons a a h⟩
  | case4 start code hshort => left; rfl

@[simp] theorem length_fusePairs (isSite : Nat → Bool) (start : Nat) (code : List Instruction) :
    (fusePairs isSite start code).1.length = code.length := by
  fun_induction fusePairs isSite start code <;> simp_all

/-- The two instructions of a pair push and pop, and the replacement does both. -/
theorem action_of_fuse? {a b c : Instruction} (ha : ∀ f, a.opcode = .push f → ∃ x, a.operands = [x])
    (hb : ∀ f, b.opcode = .pop f → ∃ y, b.operands = [y]) (h : fuse? a b = some c) :
    ∃ x y, a.action = .push x ∧ b.action = .pop y ∧
      c.action = (match y with | some y => .move y x | none => .skip) := by
  obtain ⟨opcode, operands, _, _, _⟩ := a
  obtain ⟨opcode', operands', _, _, _⟩ := b
  simp only [fuse?] at h
  -- What is pushed is dropped, or null is popped somewhere, or a value of one form is moved.
  split at h
  · rename_i hdrop
    simp only [Bool.and_eq_true, beq_iff_eq] at hdrop
    obtain ⟨hpush, hpop⟩ := hdrop
    subst hpop
    cases opcode with
    | pushNull =>
      refine ⟨none, none, rfl, rfl, ?_⟩
      cases h; rfl
    | push f =>
      obtain ⟨x, hx⟩ := ha f rfl
      simp only at hx
      subst hx
      refine ⟨some x, none, rfl, rfl, ?_⟩
      cases h; rfl
    | _ => simp [Opcode.isPush] at hpush
  · split at h
    · rename_i hnull
      simp only [Bool.and_eq_true, beq_iff_eq] at hnull
      obtain ⟨hpush, hpop⟩ := hnull
      subst hpush
      cases opcode' with
      | pop f =>
        obtain ⟨y, hy⟩ := hb f rfl
        simp only at hy
        subst hy
        refine ⟨none, some y, rfl, rfl, ?_⟩
        simp at h
        subst h; rfl
      | _ => simp [Opcode.isPop] at hpop
    · cases opcode with
      | push f =>
        obtain ⟨x, hx⟩ := ha f rfl
        simp only at hx
        subst hx
        simp only [Opcode.fusion?] at h
        split at h
        · rename_i hpop
          subst hpop
          obtain ⟨y, hy⟩ := hb f rfl
          simp only at hy
          subst hy
          refine ⟨some x, some y, rfl, rfl, ?_⟩
          simp at h
          subst h; rfl
        · cases h
      | _ => simp [Opcode.fusion?] at h

/-! ### Replacing pairs -/

variable {V S : Type} {m : Semantics V S} {code : List Instruction} {symbols : List Entry}

theorem toNat_mem_sites (symbols : List Entry) (h : WellFormed code) (hi : i ∈ code) {k : Int}
    (hk : k ∈ i.targets) : (sites code symbols).contains k.toNat = true := by
  have hpos := h.targets_nonneg i hi k hk
  obtain ⟨n, rfl⟩ := Int.eq_ofNat_of_zero_le hpos
  simp only [List.contains_eq_mem, decide_eq_true_eq, sites, List.mem_append, List.mem_flatMap,
    List.mem_filterMap]
  exact Or.inl ⟨i, hi, _, hk, rfl⟩

/-- Where control is after an instruction. -/
theorem pc_of_perform {c d : Config V S} (h : perform m code i c = some d) :
    d.pc = c.pc + 1 ∨ (∃ k ∈ i.targets, d.pc = k.toNat) ∨ d.pc = code.length := by
  unfold perform at h
  split at h
  · cases h; exact .inl rfl
  · cases h; exact .inl rfl
  · split at h
    · cases h
    · cases h; exact .inl rfl
  · cases h; exact .inl rfl
  · cases h
    generalize (m.effect i.opcode i.plainOperands c.stack c.store).exit = exit
    -- Any other instruction may jump or stop.
    cases exit with
    | next => exact .inl rfl
    | stop => exact .inr (.inr rfl)
    | jump n =>
      cases hn : i.targets[n]? with
      | none => left; simp [destination, hn]
      | some k =>
        right; left
        exact ⟨k, List.mem_of_getElem? hn, by simp [destination, hn]⟩

/-- Only the length of the program matters to an instruction. -/
theorem perform_congr {code code' : List Instruction} (h : code.length = code'.length)
    (i : Instruction) (c : Config V S) : perform m code i c = perform m code' i c := by
  unfold perform
  split <;> try rfl
  generalize (m.effect i.opcode i.plainOperands c.stack c.store).exit = exit
  cases exit <;> simp [destination, h]

/-- Between the two instructions of a replaced pair. -/
def Midway (code fused : List Instruction) (symbols : List Entry) (pc : Nat) : Prop :=
  ∃ k, pc = k + 1 ∧ Replaced (sites code symbols).contains code fused 0 k

/-- The two programs agree, or each is about to do what leads to the same configuration. -/
def Lockstep (m : Semantics V S) (code fused : List Instruction) (symbols : List Entry)
    (c c' : Config V S) : Prop :=
  (c = c' ∧ ¬ Midway code fused symbols c.pc) ∨
    ∃ d, step m code c = some d ∧ step m fused c' = some d ∧ event code c = none ∧
      event fused c' = none ∧ ¬ Midway code fused symbols d.pc

/-- From the first instruction of a pair both programs get to the end of the pair. -/
theorem lockstep_of_replaced (h : WellFormed code) {c : Config V S}
    (hpair : Replaced (sites code symbols).contains code fused 0 c.pc) :
    ∃ d d', step m code c = some d ∧ step m fused c = some d' ∧ event code c = none ∧
      event fused c = none ∧ Lockstep m code fused symbols d d' := by
  obtain ⟨a, b, r, ha, hb, hr, hblank, hfuse, -⟩ := hpair
  have hamem := List.mem_of_getElem? ha
  have hbmem := List.mem_of_getElem? hb
  obtain ⟨x, y, hax, hby, hry⟩ := action_of_fuse? (h.push a hamem) (h.pop b hbmem) hfuse
  have hskip : (blank b).action = .skip := rfl
  -- Between the two instructions the first program has the value on its stack.
  let v := m.load c.store x
  refine ⟨⟨c.pc + 1, v :: c.stack, c.store⟩, ⟨c.pc + 1, c.stack, m.save c.store v y⟩,
    ?_, ?_, ?_, ?_, .inr ⟨⟨c.pc + 2, c.stack, m.save c.store v y⟩, ?_, ?_, ?_, ?_, ?_⟩⟩
  · simp [step, ha, perform, hax, v]
  · cases y <;> simp [step, hr, perform, hry, v, Semantics.save]
  · simp [event, ha, hax]
  · cases y <;> simp [event, hr, hry]
  · simp [step, hb, perform, hby]
  · simp [step, hblank, perform, hskip]
  · simp [event, hb, hby]
  · simp [event, hblank, hskip]
  · -- The second instruction of a pair is a pop, so it is not the first of another.
    rintro ⟨k, hk, a', b', r', ha', hb', -, -, hfuse', -⟩
    have hkb : k = c.pc + 1 := (Nat.succ.inj hk).symm
    subst hkb
    have hsame : a' = b := Option.some.inj (ha'.symm.trans hb)
    subst hsame
    obtain ⟨x', y', hpush, -, -⟩ := action_of_fuse? (h.push a' hbmem)
      (h.pop b' (List.mem_of_getElem? hb')) hfuse'
    simp [hby] at hpush

theorem simulation_fusePairs (h : WellFormed code) :
    Simulation m code (fusePairs (sites code symbols).contains 0 code).1
      (Lockstep m code (fusePairs (sites code symbols).contains 0 code).1 symbols) fun _ => 0 := by
  generalize hfused : (fusePairs (sites code symbols).contains 0 code).1 = fused
  have hlength : code.length = fused.length := by simp [← hfused]
  -- Away from pairs the programs have the same instruction.
  have hsame : ∀ {c : Config V S}, ¬ Midway code fused symbols c.pc →
      ¬ Replaced (sites code symbols).contains code fused 0 c.pc →
      fused[c.pc]? = code[c.pc]? := by
    intro c hmid hpair
    have hplaces := getElem?_fusePairs (sites code symbols).contains 0 code c.pc
    rw [hfused] at hplaces
    rcases hplaces with h | h | ⟨k, hk, h⟩
    · exact h
    · exact absurd h hpair
    · exact absurd ⟨k, hk, h⟩ hmid
  have hstepSame : ∀ {c : Config V S}, fused[c.pc]? = code[c.pc]? →
      step m fused c = step m code c ∧ event fused c = event code c := by
    intro c hc
    constructor
    · simp only [step, hc]
      congr 1
      funext i
      exact perform_congr hlength.symm i c
    · simp only [event, hc]
  constructor
  · rintro c c' (⟨rfl, hmid⟩ | ⟨d, hstep, -⟩) hhalt
    · by_cases hpair : Replaced (sites code symbols).contains code fused 0 c.pc
      · obtain ⟨d, d', hstep, -⟩ := lockstep_of_replaced (m := m) h hpair
        simp [hhalt] at hstep
      · rw [(hstepSame (hsame hmid hpair)).1]
        exact ⟨hhalt, rfl, rfl⟩
    · simp [hhalt] at hstep
  · rintro c c' d (⟨rfl, hmid⟩ | ⟨e, hstepc, hstepc', heventc, heventc', hmid⟩) hstep
    · right
      by_cases hpair : Replaced (sites code symbols).contains code fused 0 c.pc
      · obtain ⟨e, e', hstepe, hstepe', hevent, hevent', hlock⟩ :=
          lockstep_of_replaced (m := m) h hpair
        have hde : e = d := Option.some.inj (hstepe.symm.trans hstep)
        subst hde
        exact ⟨e', hstepe', hevent'.trans hevent.symm, hlock⟩
      · obtain ⟨hsteps, hevents⟩ := hstepSame (hsame hmid hpair)
        refine ⟨d, hsteps.trans hstep, hevents, .inl ⟨rfl, ?_⟩⟩
        rintro ⟨k, hk, hrep⟩
        obtain ⟨i, hi, hperform⟩ := Option.bind_eq_some_iff.1 hstep
        rcases pc_of_perform hperform with hpc | ⟨t, ht, hpc⟩ | hpc
        · have hkc : k = c.pc := by omega
          exact hpair (hkc ▸ hrep)
        · have hsite := toNat_mem_sites symbols h (List.mem_of_getElem? hi) ht
          obtain ⟨_, _, _, _, _, _, _, _, hnot⟩ := hrep
          rw [Nat.zero_add, ← hk, hpc, hsite] at hnot
          cases hnot
        · obtain ⟨_, b, _, _, hb, _⟩ := hrep
          rw [← hk, hpc] at hb
          simp at hb
    · right
      have hde : e = d := Option.some.inj (hstepc.symm.trans hstep)
      subst hde
      exact ⟨e, hstepc', heventc'.trans heventc.symm, .inl ⟨rfl, hmid⟩⟩

/-! ### Removing instructions that do nothing -/

theorem moveOperand_of_isPlain (g : Nat → Nat) {x : Operand} (h : x.isPlain = true) :
    moveOperand g x = x := by
  cases x <;> simp_all [moveOperand, Operand.isPlain]

@[simp] theorem isPlain_moveOperand (g : Nat → Nat) (x : Operand) :
    (moveOperand g x).isPlain = x.isPlain := by
  unfold moveOperand
  split <;> rfl

/-- Without references to instructions all operands are plain. -/
theorem isPlain_of_targets_eq_nil (h : i.targets = []) : ∀ x ∈ i.operands, x.isPlain = true := by
  intro x hx
  cases x with
  | instruction k =>
    have hk : k ∈ i.targets := List.mem_filterMap.2 ⟨_, hx, rfl⟩
    simp [h] at hk
  | _ => rfl

theorem moveInstruction_eq_self (g : Nat → Nat) (h : i.targets = []) : moveInstruction g i = i := by
  have hmap : i.operands.map (moveOperand g) = i.operands := by
    conv => rhs; rw [← List.map_id i.operands]
    exact List.map_congr_left fun x hx =>
      moveOperand_of_isPlain g (isPlain_of_targets_eq_nil h x hx)
  simp only [moveInstruction, hmap]

@[simp] theorem plainOperands_moveInstruction (g : Nat → Nat) (i : Instruction) :
    (moveInstruction g i).plainOperands = i.plainOperands := by
  simp only [Instruction.plainOperands, moveInstruction]
  induction i.operands with
  | nil => rfl
  | cons x rest ih =>
    rw [List.map_cons, List.filter_cons, List.filter_cons, ih, isPlain_moveOperand]
    by_cases hx : x.isPlain = true
    · simp [hx, moveOperand_of_isPlain g hx]
    · simp [hx]

/-- References are renumbered one by one. -/
theorem targets_moveInstruction (g : Nat → Nat) (h : ∀ k ∈ i.targets, 0 ≤ k) :
    (moveInstruction g i).targets = i.targets.map fun k => (g k.toNat : Int) := by
  obtain ⟨opcode, operands, _, _, _⟩ := i
  simp only [Instruction.targets, moveInstruction] at h ⊢
  induction operands with
  | nil => rfl
  | cons x rest ih =>
    cases x with
    | instruction k =>
      have hk : 0 ≤ k := h k (by simp)
      obtain ⟨n, rfl⟩ := Int.eq_ofNat_of_zero_le hk
      have hrest := ih fun k hk => h k (by simp [hk])
      simpa [moveOperand] using hrest
    | _ =>
      have hrest := ih fun k hk => h k (by simpa using hk)
      simpa [moveOperand] using hrest

theorem action_moveInstruction (g : Nat → Nat) (h : i.opcode.movesValues = true → i.targets = []) :
    (moveInstruction g i).action = i.action := by
  by_cases hmoves : i.opcode.movesValues = true
  · rw [moveInstruction_eq_self g (h hmoves)]
  · obtain ⟨opcode, operands, _, _, _⟩ := i
    cases opcode <;> simp_all [Opcode.movesValues, moveInstruction, Instruction.action]

/-- A kept instruction is found under its new number. -/
theorem getElem?_filter_renumber (code : List Instruction) (i : Nat) (hx : code[i]? = some x)
    (hkept : isKept x = true) : (code.filter isKept)[renumber code i]? = some x := by
  induction code generalizing i with
  | nil => simp at hx
  | cons a rest ih =>
    cases i with
    | zero =>
      simp only [List.getElem?_cons_zero, Option.some.injEq] at hx
      subst hx
      simp [renumber, hkept]
    | succ i =>
      have hrest := ih i (by simpa using hx)
      by_cases ha : isKept a = true
      · simpa [renumber, ha] using hrest
      · simpa [renumber, ha] using hrest

/-- The next place has the next number, unless nothing is kept here. -/
theorem renumber_succ (code : List Instruction) (i : Nat) (hx : code[i]? = some x) :
    renumber code (i + 1) = renumber code i + if isKept x then 1 else 0 := by
  simp only [renumber, List.take_add_one, hx, Option.toList_some, List.countP_append,
    List.countP_singleton]

/-- Behind the last instruction is behind the last one that is kept. -/
theorem renumber_of_length_le (code : List Instruction) (i : Nat) (h : code.length ≤ i) :
    renumber code i = (code.filter isKept).length := by
  rw [renumber, List.take_of_length_le h, List.countP_eq_length_filter]

/-- The program without the instructions that do nothing. -/
def compact (code : List Instruction) : List Instruction :=
  (code.filter isKept).map (moveInstruction (renumber code))

theorem getElem?_compact (code : List Instruction) (i : Nat) (hx : code[i]? = some x)
    (hkept : isKept x = true) :
    (compact code)[renumber code i]? = some (moveInstruction (renumber code) x) := by
  rw [compact, List.getElem?_map, getElem?_filter_renumber code i hx hkept]
  rfl

theorem length_compact (code : List Instruction) :
    (compact code).length = renumber code code.length := by
  rw [renumber_of_length_le code code.length (Nat.le_refl _), compact, List.length_map]

/-- Control is at the same instruction under its new number. -/
def Renumbered (code : List Instruction) (c c' : Config V S) : Prop :=
  c'.pc = renumber code c.pc ∧ c'.stack = c.stack ∧ c'.store = c.store

theorem destination_moveInstruction {pc : Nat} (hi : code[pc]? = some i) (hkept : isKept i = true)
    (hnonneg : ∀ k ∈ i.targets, 0 ≤ k) (exit : Exit) :
    destination (compact code) (moveInstruction (renumber code) i) (renumber code pc) exit =
      renumber code (destination code i pc exit) := by
  have hnext : renumber code pc + 1 = renumber code (pc + 1) := by
    simp [renumber_succ code pc hi, hkept]
  cases exit with
  | next => exact hnext
  | stop => exact length_compact code
  | jump n =>
    rw [destination, destination, targets_moveInstruction _ hnonneg, List.getElem?_map]
    cases i.targets[n]? with
    | none => exact hnext
    | some k => simp

/-- A kept instruction and its renumbered copy do the same. -/
theorem perform_moveInstruction (h : WellFormed code) {c c' : Config V S}
    (hi : code[c.pc]? = some i) (hkept : isKept i = true) (hR : Renumbered code c c') :
    (perform m code i c = none ∧
      perform m (compact code) (moveInstruction (renumber code) i) c' = none) ∨
    ∃ d d', perform m code i c = some d ∧
      perform m (compact code) (moveInstruction (renumber code) i) c' = some d' ∧
      Renumbered code d d' := by
  obtain ⟨pc, stack, store⟩ := c
  obtain ⟨pc', stack', store'⟩ := c'
  simp only [Renumbered] at hR
  obtain ⟨rfl, rfl, rfl⟩ := hR
  have hmem := List.mem_of_getElem? hi
  have hnext : renumber code pc + 1 = renumber code (pc + 1) := by
    simp [renumber_succ code pc hi, hkept]
  have haction := action_moveInstruction (renumber code) (h.targets_eq_nil i hmem)
  unfold perform
  rw [haction]
  cases i.action with
  | skip => exact .inr ⟨_, _, rfl, rfl, hnext, rfl, rfl⟩
  | push x => exact .inr ⟨_, _, rfl, rfl, hnext, rfl, rfl⟩
  | move y x => exact .inr ⟨_, _, rfl, rfl, hnext, rfl, rfl⟩
  | pop y =>
    cases stack' with
    | nil => exact .inl ⟨rfl, rfl⟩
    | cons v rest => exact .inr ⟨_, _, rfl, rfl, hnext, rfl, rfl⟩
  -- Only what does not move values jumps, and where it jumps to is renumbered.
  | other =>
    refine .inr ⟨_, _, rfl, rfl, ?_, ?_, ?_⟩
    · simp only [plainOperands_moveInstruction]
      exact destination_moveInstruction hi hkept (h.targets_nonneg i hmem) _
    · simp only [plainOperands_moveInstruction]; rfl
    · simp only [plainOperands_moveInstruction]; rfl

/-- An instruction that does nothing goes on to the next. -/
theorem step_of_not_isKept {c : Config V S} (hi : code[c.pc]? = some i) (hkept : isKept i = false) :
    step m code c = some { c with pc := c.pc + 1 } ∧ event code c = none := by
  have hnop : i.opcode = .nop := by simpa [isKept] using hkept
  have haction : i.action = .skip := by
    unfold Instruction.action
    rw [hnop]
  simp [step, event, hi, perform, haction]

theorem simulation_compact (h : WellFormed code) :
    Simulation m code (compact code) (Renumbered code) fun c => code.length - c.pc := by
  constructor
  -- Where the first program halts, the second does.
  · intro c c' hR hhalt
    refine ⟨?_, hR.2.1, hR.2.2⟩
    cases hi : code[c.pc]? with
    | none =>
      have hend : (compact code)[c'.pc]? = none := by
        have hlength := renumber_of_length_le code c.pc (List.getElem?_eq_none_iff.1 hi)
        rw [hR.1, hlength]
        simp [compact]
      simp [step, hend]
    | some i =>
      by_cases hkept : isKept i = true
      · have hcopy := getElem?_compact code c.pc hi hkept
        rw [← hR.1] at hcopy
        simp only [step, hi, Option.bind_some] at hhalt
        simp only [step, hcopy, Option.bind_some]
        rcases perform_moveInstruction (m := m) h hi hkept hR with ⟨-, hnone⟩ | ⟨d, -, hsome, -⟩
        · exact hnone
        · simp [hhalt] at hsome
      · simp [(step_of_not_isKept (m := m) hi (by simpa using hkept)).1] at hhalt
  -- A step of the first is one of the second, or it is over a blank.
  · intro c c' d hR hstep
    obtain ⟨i, hi, hperform⟩ := Option.bind_eq_some_iff.1 hstep
    by_cases hkept : isKept i = true
    · right
      have hcopy := getElem?_compact code c.pc hi hkept
      rw [← hR.1] at hcopy
      have haction := action_moveInstruction (renumber code)
        (h.targets_eq_nil i (List.mem_of_getElem? hi))
      rcases perform_moveInstruction (m := m) h hi hkept hR with ⟨hnone, -⟩ | ⟨e, d', he, hd', hRd⟩
      · simp [hperform] at hnone
      · have hde : e = d := Option.some.inj (he.symm.trans hperform)
        subst hde
        refine ⟨d', by simp [step, hcopy, hd'], ?_, hRd⟩
        simp only [event, hcopy, hi, Option.bind_some, haction, plainOperands_moveInstruction,
          hR.2.1, hR.2.2]
        rfl
    · left
      have hnop := step_of_not_isKept (m := m) hi (by simpa using hkept)
      rw [hnop.1] at hstep
      cases hstep
      refine ⟨hnop.2, ⟨?_, hR.2⟩, ?_⟩
      · rw [hR.1, renumber_succ code c.pc hi]
        simp [hkept]
      -- The rank is how much code lies ahead, which a blank makes less.
      · have hlt := (List.getElem?_eq_some_iff.1 hi).1
        simp only
        omega

/-! ### Rounds -/

/-- What replaces a pair moves values, and its operands are taken from the pair. -/
theorem operands_of_fuse? {a b c : Instruction} (h : fuse? a b = some c) :
    a.opcode.movesValues = true ∧ b.opcode.movesValues = true ∧
      (∀ f, c.opcode ≠ .push f) ∧ (∀ f, c.opcode ≠ .pop f) ∧
      ∀ x ∈ c.operands, x ∈ a.operands ∨ x ∈ b.operands := by
  obtain ⟨opcode, operands, _, _, _⟩ := a
  obtain ⟨opcode', operands', _, _, _⟩ := b
  simp only [fuse?] at h
  -- The three ways of fusing, as in the definition.
  split at h
  · rename_i hdrop
    simp only [Bool.and_eq_true, beq_iff_eq] at hdrop
    obtain ⟨hpush, rfl⟩ := hdrop
    cases h
    cases opcode <;> simp_all [Opcode.isPush, Opcode.movesValues, blank]
  · split at h
    · rename_i hnull
      simp only [Bool.and_eq_true, beq_iff_eq] at hnull
      obtain ⟨rfl, hpop⟩ := hnull
      obtain ⟨d, hd, rfl⟩ := Option.map_eq_some_iff.1 h
      have hmem := List.mem_of_mem_head? hd
      cases opcode' <;> simp_all [Opcode.isPop, Opcode.movesValues]
    · cases opcode with
      | push f =>
        simp only [Opcode.fusion?] at h
        split at h
        · rename_i hpop
          subst hpop
          split at h
          · rename_i s d hs hd
            have hsmem := List.mem_of_mem_head? hs
            have hdmem := List.mem_of_mem_head? hd
            cases h
            simp_all [Opcode.movesValues]
          · cases h
        · cases h
      | _ => simp [Opcode.fusion?] at h

theorem targets_eq_nil_of_isPlain (h : ∀ x ∈ i.operands, x.isPlain = true) : i.targets = [] := by
  rw [Instruction.targets, List.filterMap_eq_nil_iff]
  intro x hx
  have hplain := h x hx
  cases x <;> simp_all [Operand.isPlain]

/-- Every instruction after the pass was there before, or comes from a pair. -/
theorem mem_fusePairs {isSite : Nat → Bool} {start : Nat}
    (h : i ∈ (fusePairs isSite start code).1) :
    i ∈ code ∨ (∃ b, i = blank b) ∨ ∃ a ∈ code, ∃ b ∈ code, fuse? a b = some i := by
  obtain ⟨k, hk⟩ := List.mem_iff_getElem?.1 h
  rcases getElem?_fusePairs isSite start code k with hsame | hpair | ⟨j, rfl, hpair⟩
  · exact .inl (List.mem_of_getElem? (hsame ▸ hk))
  · obtain ⟨a, b, c, ha, hb, hc, -, hfuse, -⟩ := hpair
    have hci : c = i := Option.some.inj (hc.symm.trans hk)
    subst hci
    exact .inr (.inr ⟨a, List.mem_of_getElem? ha, b, List.mem_of_getElem? hb, hfuse⟩)
  · obtain ⟨a, b, c, -, -, -, hblank, -, -⟩ := hpair
    exact .inr (.inl ⟨b, Option.some.inj (hk.symm.trans hblank)⟩)

theorem WellFormed.fusePairs (h : WellFormed code) (isSite : Nat → Bool) (start : Nat) :
    WellFormed (fusePairs isSite start code).1 := by
  -- A replacement has no reference to an instruction, because the pair had none.
  have hplain : ∀ {a b c : Instruction}, a ∈ code → b ∈ code → fuse? a b = some c →
      c.targets = [] := by
    intro a b c ha hb hfuse
    obtain ⟨hamoves, hbmoves, -, -, hoperands⟩ := operands_of_fuse? hfuse
    refine targets_eq_nil_of_isPlain fun x hx => ?_
    rcases hoperands x hx with hxa | hxb
    · exact isPlain_of_targets_eq_nil (h.targets_eq_nil a ha hamoves) x hxa
    · exact isPlain_of_targets_eq_nil (h.targets_eq_nil b hb hbmoves) x hxb
  constructor
  · intro i hi f hf
    rcases mem_fusePairs hi with hmem | ⟨b, rfl⟩ | ⟨a, -, b, -, hfuse⟩
    · exact h.push i hmem f hf
    · simp [blank] at hf
    · exact absurd hf ((operands_of_fuse? hfuse).2.2.1 f)
  · intro i hi f hf
    rcases mem_fusePairs hi with hmem | ⟨b, rfl⟩ | ⟨a, -, b, -, hfuse⟩
    · exact h.pop i hmem f hf
    · simp [blank] at hf
    · exact absurd hf ((operands_of_fuse? hfuse).2.2.2.1 f)
  · intro i hi hmoves
    rcases mem_fusePairs hi with hmem | ⟨b, rfl⟩ | ⟨a, ha, b, hb, hfuse⟩
    · exact h.targets_eq_nil i hmem hmoves
    · rfl
    · exact hplain ha hb hfuse
  · intro i hi k hk
    rcases mem_fusePairs hi with hmem | ⟨b, rfl⟩ | ⟨a, ha, b, hb, hfuse⟩
    · exact h.targets_nonneg i hmem k hk
    · cases hk
    · simp [hplain ha hb hfuse] at hk

theorem WellFormed.compact (h : WellFormed code) : WellFormed (compact code) := by
  have hmem : ∀ {i : Instruction}, i ∈ Peephole.compact code →
      ∃ j ∈ code, moveInstruction (renumber code) j = i := by
    intro i hi
    obtain ⟨j, hj, rfl⟩ := List.mem_map.1 hi
    exact ⟨j, (List.mem_filter.1 hj).1, rfl⟩
  constructor
  · intro i hi f hf
    obtain ⟨j, hj, rfl⟩ := hmem hi
    obtain ⟨x, hx⟩ := h.push j hj f hf
    exact ⟨moveOperand (renumber code) x, by simp [moveInstruction, hx]⟩
  · intro i hi f hf
    obtain ⟨j, hj, rfl⟩ := hmem hi
    obtain ⟨y, hy⟩ := h.pop j hj f hf
    exact ⟨moveOperand (renumber code) y, by simp [moveInstruction, hy]⟩
  · intro i hi hmoves
    obtain ⟨j, hj, rfl⟩ := hmem hi
    have hnil := h.targets_eq_nil j hj hmoves
    rw [moveInstruction_eq_self _ hnil, hnil]
  · intro i hi k hk
    obtain ⟨j, hj, rfl⟩ := hmem hi
    rw [targets_moveInstruction _ (h.targets_nonneg j hj)] at hk
    obtain ⟨n, -, rfl⟩ := List.mem_map.1 hk
    exact Int.natCast_nonneg _

@[simp] theorem landing?_renumber (g : Nat → Nat) (kind : SymbolKind) :
    (kind.renumber g).landing? = kind.landing?.map g := by
  cases kind <;> rfl

/-- Control may arrive where a symbol says, so no pair is open there. -/
theorem not_midway_of_landing {a : Entry} {e : Nat} (ha : a ∈ symbols)
    (he : a.kind.landing? = some e) : ¬ Midway code fused symbols e := by
  rintro ⟨k, rfl, _, _, _, _, _, _, _, _, hsite⟩
  have hmem : (sites code symbols).contains (k + 1) = true := by
    simp only [List.contains_eq_mem, decide_eq_true_eq, sites, List.mem_append, List.mem_filterMap]
    exact Or.inr ⟨a, ha, he⟩
  rw [Nat.zero_add, hmem] at hsite
  cases hsite

/-- One round: from where a symbol says, the programs before and after are alike. -/
theorem alike_of_round (h : WellFormed code) {a : Entry} {e : Nat} (ha : a ∈ symbols)
    (he : a.kind.landing? = some e) (stack : List V) (store : S) :
    let fused := (fusePairs (sites code symbols).contains 0 code).1
    Alike m code (compact fused) ⟨e, stack, store⟩ ⟨renumber fused e, stack, store⟩ := by
  intro fused
  have hfirst : Alike m code fused ⟨e, stack, store⟩ ⟨e, stack, store⟩ :=
    (simulation_fusePairs h).alike (.inl ⟨rfl, not_midway_of_landing ha he⟩)
  have hsecond : Alike m fused (compact fused) ⟨e, stack, store⟩
      ⟨renumber fused e, stack, store⟩ :=
    (simulation_compact (h.fusePairs _ _)).alike ⟨rfl, rfl, rfl⟩
  exact hfirst.trans m hsecond

/-- Any number of rounds. -/
theorem alike_rounds (m : Semantics V S) (n : Nat) (h : WellFormed code) {k : Nat} {a : Entry}
    {e : Nat} (ha : symbols[k]? = some a) (he : a.kind.landing? = some e) :
    ∃ b e', (rounds n code symbols).symbols[k]? = some b ∧ b.kind.landing? = some e' ∧
      ∀ stack store, Alike m code (rounds n code symbols).code ⟨e, stack, store⟩
        ⟨e', stack, store⟩ := by
  induction n generalizing code symbols a e with
  | zero => exact ⟨a, e, ha, he, fun stack store => .refl m code _⟩
  | succ n ih =>
    rw [rounds_succ]
    generalize hround : fusePairs (sites code symbols).contains 0 code = round
    obtain ⟨fused, count⟩ := round
    have hfused : (fusePairs (sites code symbols).contains 0 code).1 = fused := by rw [hround]
    simp only
    split
    -- Nothing was fused, so this was the last round.
    · exact ⟨a, e, ha, he, fun stack store => .refl m code _⟩
    · have hwf : WellFormed (compact fused) := hfused ▸ (h.fusePairs _ _).compact
      have hmoved : (symbols.map (moveEntry (renumber fused)))[k]? =
          some (moveEntry (renumber fused) a) := by simp [ha]
      have hlanding : (moveEntry (renumber fused) a).kind.landing? = some (renumber fused e) := by
        simp [moveEntry, he]
      obtain ⟨b, e', hb, he', halike⟩ := ih hwf hmoved hlanding
      refine ⟨b, e', hb, he', fun stack store => ?_⟩
      have hround := alike_of_round (m := m) h (List.mem_of_getElem? ha) he stack store
      simp only [hfused] at hround
      exact hround.trans m (halike stack store)

/-- A shortened program behaves as the program it was made from: wherever a symbol lets
    control enter, it still does so, and from there, whatever the stack and the store, the
    two programs leave the same events and halt with the same stack and store. -/
theorem optimize_alike (m : Semantics V S) (code : List Instruction) (symbols : List Entry)
    (h : WellFormed code) (k : Nat) (a : Entry) (e : Nat) (ha : symbols[k]? = some a)
    (he : a.kind.landing? = some e) :
    ∃ b e', (optimize code symbols).symbols[k]? = some b ∧ b.kind.landing? = some e' ∧
      ∀ stack store, Alike m code (optimize code symbols).code ⟨e, stack, store⟩
        ⟨e', stack, store⟩ :=
  alike_rounds m code.length h ha he

/-- A machine whose store is one number. -/
def oneCell : Semantics Int Int where
  null := 0
  read store x := if x.isSlot then store else 7
  write _ _ v := v
  effect opcode _ stack store :=
    ⟨stack, store, match opcode with
      | .jumpIf _ => if store = 0 then .jump 0 else .next
      | .ret => .stop
      | _ => .next⟩

/-- A pair that becomes a move, and one that a jump and a symbol lead to and that goes. -/
def twoPairs : List Instruction :=
  [{ opcode := .push (.numeric .int), operands := [.int 7] },
   { opcode := .pop (.numeric .int), operands := [.memory 0] },
   { opcode := .jumpIf .eq, operands := [.instruction 3] },
   { opcode := .pushNull },
   { opcode := .popDestroy },
   { opcode := .ret }]

def twoPairsSymbols : List Entry :=
  [{ kind := .function { entryPoint := some 0 } }, { kind := .target (some 3) }]

theorem optimize_alike_twoPairs :
    WellFormed twoPairs ∧ twoPairsSymbols[1]? = some { kind := .target (some 3) } ∧
      ∃ b e', (optimize twoPairs twoPairsSymbols).symbols[1]? = some b ∧
        b.kind.landing? = some e' ∧
        ∀ stack store, Alike oneCell twoPairs (optimize twoPairs twoPairsSymbols).code
          ⟨3, stack, store⟩ ⟨e', stack, store⟩ := by
  have hwf : WellFormed twoPairs := by
    constructor <;> simp [twoPairs, Opcode.movesValues, Instruction.targets]
  have hsymbol : twoPairsSymbols[1]? = some { kind := .target (some 3) } := rfl
  exact ⟨hwf, hsymbol, optimize_alike oneCell twoPairs twoPairsSymbols hwf 1 _ 3 hsymbol rfl⟩

end Peephole

end StateScript
