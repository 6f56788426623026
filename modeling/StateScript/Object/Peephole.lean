import StateScript.Object

/-! # Shortening a program

  Two adjacent instructions are replaced by one where the second takes what the first
  has pushed:

  - a push followed by a pop of the same family is a move;
  - a push of `null` followed by a pop is a move of `null`;
  - a push whose value is thrown away does nothing.

  No pair is touched whose second instruction can be reached from elsewhere. A round
  replaces pairs from left to right, filling the freed places by instructions that do
  nothing, and then removes all of those; rounds are repeated until one finds no pair.
-/

namespace StateScript.Peephole

/-- Numbers of the instructions where control may arrive from somewhere else than the
    instruction before: operands of instructions, entry points and bound targets. -/
def sites (code : List Instruction) (symbols : List Entry) : List Nat :=
  (code.flatMap fun i => i.targets.filterMap fun
    | .ofNat k => some k
    | .negSucc _ => none) ++
  symbols.filterMap (·.kind.landing?)

/-- What stands in for a removed instruction until the end of the round. -/
def blank (i : Instruction) : Instruction := { i with opcode := .nop, operands := [] }

/-- What replaces `a` if `b` follows it. -/
def fuse? (a b : Instruction) : Option Instruction :=
  if a.opcode.isPush && b.opcode == .popDestroy then some (blank a)
  else if a.opcode == .pushNull && b.opcode.isPop then
    b.operands.head?.map fun d => { a with opcode := .movNull, operands := [d] }
  else
    match a.opcode.fusion? with
    | some (pop, mov) =>
      if pop = b.opcode then
        match a.operands.head?, b.operands.head? with
        | some s, some d => some { a with opcode := mov, operands := [d, s] }
        | _, _ => none
      else none
    | none => none

/-- One pass over instructions of which the first has number `i`, with the count of
    replaced pairs. -/
def fusePairs (isSite : Nat → Bool) : Nat → List Instruction → List Instruction × Nat
  | i, a :: b :: rest =>
    if isSite (i + 1) then
      let (code, n) := fusePairs isSite (i + 1) (b :: rest)
      (a :: code, n)
    else
      match fuse? a b with
      | some c =>
        let (code, n) := fusePairs isSite (i + 2) rest
        (c :: blank b :: code, n + 1)
      | none =>
        let (code, n) := fusePairs isSite (i + 1) (b :: rest)
        (a :: code, n)
  | _, code => (code, 0)

def isKept (i : Instruction) : Bool := i.opcode != .nop

/-- Number that the first kept instruction at or after `i` gets. -/
def renumber (code : List Instruction) (i : Nat) : Nat := (code.take i).countP isKept

/-- The operand with its reference to an instruction renumbered. -/
def moveOperand (g : Nat → Nat) : Operand → Operand
  | .instruction (.ofNat k) => .instruction (g k)
  | x => x

def moveInstruction (g : Nat → Nat) (i : Instruction) : Instruction :=
  { i with operands := i.operands.map (moveOperand g) }

def moveEntry (g : Nat → Nat) (e : Entry) : Entry := { e with kind := e.kind.renumber g }

/-- A program and how many pairs were replaced to get it. -/
structure Outcome where
  code : List Instruction
  symbols : List Entry
  replaced : Nat
deriving DecidableEq

/-! ### Tables

  A round asks of every instruction whether control may arrive there, and of every
  reference which number it gets. Both are tabulated, so that a round takes time in
  proportion to the program. -/

/-- Marks those of the first `n` instructions that are landing sites. -/
def marks (n : Nat) (landings : List Nat) : Array Bool :=
  landings.foldl (fun m k => m.setIfInBounds k true) (Array.replicate n false)

/-- How many instructions are kept before each instruction and before the end, if `n` are
    kept before the first. -/
def tally : Nat → List Instruction → List Nat
  | n, [] => [n]
  | n, i :: rest => n :: tally (if isKept i then n + 1 else n) rest

theorem getD_foldl_mark (landings : List Nat) (m : Array Bool) (k : Nat) (h : k < m.size) :
    (landings.foldl (fun m k => m.setIfInBounds k true) m).getD k false =
      (landings.contains k || m.getD k false) := by
  induction landings generalizing m with
  | nil => simp
  | cons j rest ih =>
    have hsize : k < (m.setIfInBounds j true).size := by simpa using h
    rw [List.foldl_cons, ih _ hsize, List.contains_cons]
    by_cases hj : k = j
    · subst hj
      simp [Array.getD, h]
    · have hne : j ≠ k := fun e => hj e.symm
      have hbeq : (k == j) = false := by simpa using hj
      simp [Array.getD, h, hne, hbeq]

/-- The marks are the landing sites. -/
theorem getD_marks (n : Nat) (landings : List Nat) (k : Nat) (h : k < n) :
    (marks n landings).getD k false = landings.contains k := by
  have hsize : k < (Array.replicate n false).size := by simpa using h
  rw [marks, getD_foldl_mark landings _ k hsize]
  simp [Array.getD, h]

/-- The tally holds the new numbers. -/
theorem getElem?_tally (n : Nat) (code : List Instruction) (i : Nat) :
    (tally n code)[i]? = if i ≤ code.length then some (n + renumber code i) else none := by
  induction code generalizing n i with
  | nil => cases i <;> simp [tally, renumber]
  | cons a rest ih =>
    cases i with
    | zero => simp [tally, renumber]
    | succ i =>
      have hle : (i + 1 ≤ (a :: rest).length) = (i ≤ rest.length) := by simp
      simp only [tally, List.getElem?_cons_succ, ih, hle]
      by_cases ha : isKept a = true
      · simp [renumber, ha, Nat.add_assoc, Nat.add_comm 1]
      · simp [renumber, ha]

/-- Only the answers for instructions that follow one of the list count. -/
theorem fusePairs_congr (p q : Nat → Bool) (i : Nat) (code : List Instruction)
    (h : ∀ k, k < i + code.length → p k = q k) : fusePairs p i code = fusePairs q i code := by
  fun_induction fusePairs p i code with
  | case1 i a b rest hp code n hrec ih =>
    have hq : q (i + 1) = true := by rw [← h (i + 1) (by simp)]; exact hp
    have hlater := ih fun k hk => h k (by simp at hk ⊢; omega)
    rw [hrec] at hlater
    simp [fusePairs, hq, ← hlater]
  | case2 i a b rest hp c hc code n hrec ih =>
    have hq : q (i + 1) = false := by rw [← h (i + 1) (by simp)]; simpa using hp
    have hlater := ih fun k hk => h k (by simp at hk ⊢; omega)
    rw [hrec] at hlater
    simp [fusePairs, hq, hc, ← hlater]
  | case3 i a b rest hp hc code n hrec ih =>
    have hq : q (i + 1) = false := by rw [← h (i + 1) (by simp)]; simpa using hp
    have hlater := ih fun k hk => h k (by simp at hk ⊢; omega)
    rw [hrec] at hlater
    simp [fusePairs, hq, hc, ← hlater]
  | case4 i code hshort =>
    unfold fusePairs
    split
    · exact absurd rfl (hshort _ _ _)
    · rfl

/-! ### Rounds -/

/-- Removes instructions that do nothing; a reference to one of them moves to the next
    that stays. -/
def removeBlanks (code : List Instruction) (symbols : List Entry) :
    List Instruction × List Entry :=
  let counts := (tally 0 code).toArray
  let all := code.countP isKept
  let g := fun i => counts.getD i all
  ((code.filter isKept).map (moveInstruction g), symbols.map (moveEntry g))

theorem removeBlanks_eq (code : List Instruction) (symbols : List Entry) :
    removeBlanks code symbols =
      ((code.filter isKept).map (moveInstruction (renumber code)),
        symbols.map (moveEntry (renumber code))) := by
  have hg : (fun i => (tally 0 code).toArray.getD i (code.countP isKept)) = renumber code := by
    funext i
    rw [Array.getD_eq_getD_getElem?, List.getElem?_toArray, getElem?_tally]
    by_cases hi : i ≤ code.length
    · simp [hi]
    · simp [hi, renumber, List.take_of_length_le (Nat.le_of_not_le hi)]
  simp only [removeBlanks, hg]

/-- At most `n` rounds. -/
def rounds : Nat → List Instruction → List Entry → Outcome
  | 0, code, symbols => ⟨code, symbols, 0⟩
  | n + 1, code, symbols =>
    let landings := marks code.length (sites code symbols)
    let (fused, count) := fusePairs (landings.getD · false) 0 code
    if count = 0 then ⟨code, symbols, 0⟩
    else
      let (code, symbols) := removeBlanks fused symbols
      let later := rounds n code symbols
      { later with replaced := count + later.replaced }

/-- One round, said without tables. -/
theorem rounds_succ (n : Nat) (code : List Instruction) (symbols : List Entry) :
    rounds (n + 1) code symbols =
      let (fused, count) := fusePairs (sites code symbols).contains 0 code
      if count = 0 then ⟨code, symbols, 0⟩
      else
        let later := rounds n ((fused.filter isKept).map (moveInstruction (renumber fused)))
          (symbols.map (moveEntry (renumber fused)))
        { later with replaced := count + later.replaced } := by
  have hpairs : fusePairs ((marks code.length (sites code symbols)).getD · false) 0 code =
      fusePairs (sites code symbols).contains 0 code :=
    fusePairs_congr _ _ _ _ fun k hk => getD_marks _ _ k (by simpa using hk)
  simp only [rounds, hpairs, removeBlanks_eq]

/-- Shortens a program as far as it goes. Every round but the last removes an
    instruction, so their number is at most that of the instructions. -/
def optimize (code : List Instruction) (symbols : List Entry) : Outcome :=
  rounds code.length code symbols

end StateScript.Peephole
