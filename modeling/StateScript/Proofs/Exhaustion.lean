import StateScript.Proofs.Peephole

/-! # Nothing is left to shorten

  Rounds are repeated until one finds no pair. Every other round blanks the second
  instruction of a pair and removes it, so the program gets shorter and the repetition
  comes to its end: `Repeats` is the repetition without any bound, and `optimize` is what
  it comes to. The last round has looked at every place of its program, since it moved on
  by one instruction each time. So no pair is left there that could be replaced, and to
  shorten the program again changes nothing.

  Which pairs are meant is said by `Redundant`, and where control may arrive by `Lands`,
  both without the functions of a round.
-/

namespace StateScript.Peephole

variable {code : List Instruction} {symbols : List Entry} {r : Outcome}

/-! ### Pairs and landing sites -/

/-- Two instructions of which the second takes what the first has pushed. -/
inductive Redundant : Instruction → Instruction → Prop
  | discarded {a b : Instruction} (ha : a.opcode = .pushNull ∨ ∃ f, a.opcode = .push f)
      (hb : b.opcode = .popDestroy) : Redundant a b
  | null {a b : Instruction} {f : Family} (ha : a.opcode = .pushNull) (hb : b.opcode = .pop f)
      (hplace : b.operands ≠ []) : Redundant a b
  | moved {a b : Instruction} {f : Family} (ha : a.opcode = .push f) (hb : b.opcode = .pop f)
      (hsource : a.operands ≠ []) (hplace : b.operands ≠ []) : Redundant a b

/-- Control may arrive at an instruction from elsewhere: an operand names it, a function
    starts there, or a target is bound to it. -/
def Lands (code : List Instruction) (symbols : List Entry) (place : Nat) : Prop :=
  (∃ i ∈ code, Operand.instruction place ∈ i.operands) ∨
    (∃ e ∈ symbols, ∃ f, e.kind = .function f ∧ f.entryPoint = some place) ∨
      ∃ e ∈ symbols, e.kind = .target (some place)

/-- The second instruction of every redundant pair can be reached from elsewhere. -/
def Exhausted (code : List Instruction) (symbols : List Entry) : Prop :=
  ∀ (i : Nat) (a b : Instruction), code[i]? = some a → code[i + 1]? = some b → Redundant a b →
    Lands code symbols (i + 1)

/-- A landing site of a round is a place where control may arrive. -/
theorem lands_of_mem_sites {place : Nat} (h : (sites code symbols).contains place = true) :
    Lands code symbols place := by
  simp only [List.contains_eq_mem, decide_eq_true_eq, sites, List.mem_append, List.mem_flatMap,
    List.mem_filterMap] at h
  rcases h with ⟨i, hi, k, hk, hplace⟩ | ⟨e, he, hplace⟩
  · -- A reference in front of the program is no site.
    cases k with
    | ofNat k =>
      cases hplace
      obtain ⟨x, hx, hxk⟩ := List.mem_filterMap.1 hk
      cases x <;> cases hxk
      exact .inl ⟨i, hi, hx⟩
    | negSucc k => cases hplace
  · cases hkind : e.kind with
    | function f =>
      rw [hkind] at hplace
      exact .inr (.inl ⟨e, he, f, hkind, hplace⟩)
    | target bound =>
      rw [hkind] at hplace
      cases hplace
      exact .inr (.inr ⟨e, he, hkind⟩)
    | _ =>
      rw [hkind] at hplace
      cases hplace

theorem exists_head_of_ne_nil {operands : List Operand} (h : operands ≠ []) :
    ∃ x, operands.head? = some x := by
  cases operands with
  | nil => exact absurd rfl h
  | cons x rest => exact ⟨x, rfl⟩

/-- A round replaces every redundant pair that it looks at. -/
theorem fuse?_isSome_of_redundant {a b : Instruction} (h : Redundant a b) :
    ∃ c, fuse? a b = some c := by
  cases h with
  | discarded ha hb =>
    have hpush : a.opcode.isPush = true := by
      rcases ha with ha | ⟨f, ha⟩ <;> rw [ha] <;> rfl
    exact ⟨blank a, by simp [fuse?, hpush, hb]⟩
  | null ha hb hplace =>
    obtain ⟨d, hd⟩ := exists_head_of_ne_nil hplace
    exact ⟨{ a with opcode := .movNull, operands := [d] }, by
      simp [fuse?, ha, hb, Opcode.isPush, Opcode.isPop, hd]⟩
  | @moved f ha hb hsource hplace =>
    obtain ⟨s, hs⟩ := exists_head_of_ne_nil hsource
    obtain ⟨d, hd⟩ := exists_head_of_ne_nil hplace
    exact ⟨{ a with opcode := .mov f, operands := [d, s] }, by
      simp [fuse?, ha, hb, Opcode.isPush, Opcode.fusion?, hs, hd]⟩

/-! ### One round -/

/-- A pass that replaces nothing has looked at all places: each has a landing site behind
    it or no pair. -/
theorem settled_of_fusePairs (isSite : Nat → Bool) (start : Nat) (code : List Instruction)
    (h : (fusePairs isSite start code).2 = 0) (i : Nat) (a b : Instruction)
    (ha : code[i]? = some a) (hb : code[i + 1]? = some b) :
    isSite (start + i + 1) = true ∨ fuse? a b = none := by
  -- The induction is on the pass; at place 0 its own test decides, later places are later tests.
  fun_induction fusePairs isSite start code generalizing i with
  | case1 start x y rest hsite fused n hrec ih =>
    cases i with
    | zero => exact .inl hsite
    | succ i =>
      rw [hrec] at ih
      have hlater := ih h i ha hb
      rwa [show start + (i + 1) + 1 = start + 1 + i + 1 by omega]
  | case2 start x y rest hsite c hfuse fused n hrec ih =>
    simp at h
  | case3 start x y rest hsite hfuse fused n hrec ih =>
    cases i with
    | zero =>
      cases ha
      cases hb
      exact .inr hfuse
    | succ i =>
      rw [hrec] at ih
      have hlater := ih h i ha hb
      rwa [show start + (i + 1) + 1 = start + 1 + i + 1 by omega]
  | case4 start code hshort =>
    cases code with
    | nil => simp at ha
    | cons x rest =>
      cases rest with
      | nil => simp at hb
      | cons y rest => exact absurd rfl (hshort x y rest)

/-- A pass that replaces a pair leaves an instruction that does nothing. -/
theorem exists_blank_of_fusePairs (isSite : Nat → Bool) (start : Nat) (code : List Instruction)
    (h : (fusePairs isSite start code).2 ≠ 0) :
    ∃ i ∈ (fusePairs isSite start code).1, isKept i = false := by
  fun_induction fusePairs isSite start code with
  | case1 start x y rest hsite fused n hrec ih =>
    rw [hrec] at ih
    obtain ⟨i, hi, hblank⟩ := ih h
    exact ⟨i, List.mem_cons_of_mem _ hi, hblank⟩
  -- The second of a pair is left blank.
  | case2 start x y rest hsite c hfuse fused n hrec ih =>
    exact ⟨blank y, by simp, rfl⟩
  | case3 start x y rest hsite hfuse fused n hrec ih =>
    rw [hrec] at ih
    obtain ⟨i, hi, hblank⟩ := ih h
    exact ⟨i, List.mem_cons_of_mem _ hi, hblank⟩
  | case4 start code hshort => exact absurd rfl h

/-- A round that finds a pair makes the program shorter. -/
theorem length_compact_lt (h : (fusePairs (sites code symbols).contains 0 code).2 ≠ 0) :
    (compact (fusePairs (sites code symbols).contains 0 code).1).length < code.length := by
  obtain ⟨i, hi, hblank⟩ := exists_blank_of_fusePairs _ _ _ h
  have hlt : ((fusePairs (sites code symbols).contains 0 code).1.filter isKept).length <
      (fusePairs (sites code symbols).contains 0 code).1.length := by
    apply List.length_filter_lt_length_iff_exists.2
    exact ⟨i, hi, by simp [hblank]⟩
  rw [compact, List.length_map]
  simpa using hlt

/-! ### Repeated rounds -/

/-- What repeated rounds come to, without a bound on their number. -/
inductive Repeats : List Instruction → List Entry → Outcome → Prop
  | done {code : List Instruction} {symbols : List Entry}
      (h : (fusePairs (sites code symbols).contains 0 code).2 = 0) :
      Repeats code symbols ⟨code, symbols, 0⟩
  | again {code fused : List Instruction} {symbols : List Entry} {count : Nat} {r : Outcome}
      (hround : fusePairs (sites code symbols).contains 0 code = (fused, count))
      (hcount : count ≠ 0)
      (hlater : Repeats (removeBlanks fused symbols).1 (removeBlanks fused symbols).2 r) :
      Repeats code symbols { r with replaced := count + r.replaced }

/-- As many rounds as there are instructions are enough. -/
theorem repeats_rounds (n : Nat) (code : List Instruction) (symbols : List Entry)
    (h : code.length ≤ n) : Repeats code symbols (rounds n code symbols) := by
  induction n generalizing code symbols with
  | zero =>
    obtain rfl : code = [] := List.eq_nil_of_length_eq_zero (Nat.le_zero.1 h)
    exact .done (by simp [fusePairs])
  | succ n ih =>
    rw [rounds_succ]
    generalize hround : fusePairs (sites code symbols).contains 0 code = round
    obtain ⟨fused, count⟩ := round
    dsimp only
    split
    · next hcount =>
      subst hcount
      exact .done (congrArg Prod.snd hround)
    · next hcount =>
      refine .again hround hcount ?_
      -- A round that fuses a pair makes the code shorter.
      have hfound : (fusePairs (sites code symbols).contains 0 code).2 ≠ 0 := by rwa [hround]
      have hshorter := length_compact_lt hfound
      rw [hround] at hshorter
      rw [removeBlanks_eq]
      exact ih _ _ (Nat.le_of_lt_succ (Nat.lt_of_lt_of_le hshorter h))

/-- No round makes a program longer. -/
theorem Repeats.length_le (h : Repeats code symbols r) : r.code.length ≤ code.length := by
  induction h with
  | done => exact Nat.le_refl _
  | @again code fused symbols count r hround hcount _ ih =>
    have hfound : (fusePairs (sites code symbols).contains 0 code).2 ≠ 0 := by rwa [hround]
    have hshorter := length_compact_lt hfound
    rw [hround] at hshorter
    rw [removeBlanks_eq] at ih
    exact Nat.le_trans ih (Nat.le_of_lt hshorter)

/-- The repetition ends with a round that has found nothing. -/
theorem Repeats.settled (h : Repeats code symbols r) :
    (fusePairs (sites r.code r.symbols).contains 0 r.code).2 = 0 := by
  induction h with
  | done h => exact h
  | again _ _ _ ih => exact ih

/-- The repetition has one outcome. -/
theorem Repeats.eq {r' : Outcome} (h : Repeats code symbols r) (h' : Repeats code symbols r') :
    r = r' := by
  induction h generalizing r' with
  | done h =>
    cases h' with
    | done => rfl
    | again hround hcount => exact absurd ((congrArg Prod.snd hround).symm.trans h) hcount
  | again hround hcount _ ih =>
    cases h' with
    | done h => exact absurd ((congrArg Prod.snd hround).symm.trans h) hcount
    | again hround' _ hlater' =>
      cases hround.symm.trans hround'
      rw [ih hlater']

/-- Where a round finds nothing, no redundant pair is left. -/
theorem exhausted_of_settled (h : (fusePairs (sites code symbols).contains 0 code).2 = 0) :
    Exhausted code symbols := by
  intro i a b ha hb hpair
  obtain ⟨c, hc⟩ := fuse?_isSome_of_redundant hpair
  rcases settled_of_fusePairs _ 0 code h i a b ha hb with hsite | hnone
  · rw [Nat.zero_add] at hsite
    exact lands_of_mem_sites hsite
  · rw [hc] at hnone
    cases hnone

/-- Shortening comes to an end, and to one end only: a program that is not longer and in which
    every redundant pair has a landing site between its two instructions. To shorten this
    program again replaces nothing and changes neither instructions nor symbols. -/
theorem optimize_exhausts (code : List Instruction) (symbols : List Entry) :
    (∀ r, Repeats code symbols r ↔ r = optimize code symbols) ∧
      (optimize code symbols).code.length ≤ code.length ∧
      Exhausted (optimize code symbols).code (optimize code symbols).symbols ∧
      optimize (optimize code symbols).code (optimize code symbols).symbols =
        ⟨(optimize code symbols).code, (optimize code symbols).symbols, 0⟩ := by
  have hends : Repeats code symbols (optimize code symbols) :=
    repeats_rounds code.length code symbols (Nat.le_refl _)
  have hsettled := hends.settled
  refine ⟨fun r => ⟨fun hr => hr.eq hends, fun hr => hr ▸ hends⟩, hends.length_le,
    exhausted_of_settled hsettled, ?_⟩
  -- The shortened program is where the repetition from it ends at once.
  exact (repeats_rounds _ _ _ (Nat.le_refl _)).eq (.done hsettled)

end StateScript.Peephole
