import StateScript.Instruction

/-! # An abstract machine

  A machine on which two programs can be compared without saying what a value is. It has
  a stack of values and a store. Moving values between the two is fixed: a push reads an
  operand, a pop writes one, a move does both. How an operand is read and written is a
  parameter, and so is everything that any other instruction does. Such an instruction is
  a function of its code, of those operands that name no instruction, of the stack and of
  the store; it falls through, goes to one of the instructions that its operands name, or
  ends the run.

  Every such instruction leaves an event, so two programs behave alike if from their
  starts they leave the same events and halt with the same stack and store. A
  `Simulation` shows this: each step of the one program is a step of the other, or it is
  no step at all and brings a rank down.
-/

namespace StateScript

/-! ### What an instruction does -/

/-- An instruction as the machine sees it. A missing operand stands for `null` where a
    value is read, and for nowhere where one is written. -/
inductive Action where
  | skip
  | push (source : Option Operand)
  | pop (place : Option Operand)
  | move (place : Operand) (source : Option Operand)
  | other
deriving DecidableEq

namespace Operand

/-- Whether an operand names no instruction. -/
def isPlain : Operand → Bool
  | .instruction _ => false
  | _ => true

end Operand

namespace Instruction

/-- The operands that name no instruction. -/
def plainOperands (i : Instruction) : List Operand := i.operands.filter Operand.isPlain

def action (i : Instruction) : Action :=
  match i.opcode, i.operands with
  | .nop, _ => .skip
  | .pushNull, _ => .push none
  | .push _, [x] => .push (some x)
  | .popDestroy, _ => .pop none
  | .pop _, [y] => .pop (some y)
  | .movNull, [y] => .move y none
  | .mov _, [y, x] => .move y (some x)
  | _, _ => .other

end Instruction

/-! ### The machine -/

namespace Machine

/-- Where control goes after an instruction. -/
inductive Exit where
  | next
  /-- To the instruction that the operand at a place names. -/
  | jump (n : Nat)
  | stop
deriving DecidableEq

/-- What an instruction leaves behind. -/
structure Effect (V S : Type) where
  stack : List V
  store : S
  exit : Exit

/-- The parameters of the machine. -/
structure Semantics (V S : Type) where
  null : V
  read : S → Operand → V
  write : S → Operand → V → S
  effect : Opcode → List Operand → List V → S → Effect V S

structure Config (V S : Type) where
  pc : Nat
  stack : List V
  store : S

/-- An instruction that was performed, with what it found. -/
structure Event (V S : Type) where
  opcode : Opcode
  operands : List Operand
  stack : List V
  store : S

variable {V S : Type} (m : Semantics V S)

/-- The value that is pushed. -/
def Semantics.load (store : S) : Option Operand → V
  | some x => m.read store x
  | none => m.null

/-- The store after a pop. -/
def Semantics.save (store : S) (v : V) : Option Operand → S
  | some y => m.write store y v
  | none => store

/-- The instruction at which control goes on. -/
def destination (code : List Instruction) (i : Instruction) (pc : Nat) : Exit → Nat
  | .next => pc + 1
  | .jump n => ((i.targets[n]?).map Int.toNat).getD (pc + 1)
  | .stop => code.length

/-- One instruction. A pop of an empty stack is impossible. -/
def perform (code : List Instruction) (i : Instruction) (c : Config V S) : Option (Config V S) :=
  match i.action with
  | .skip => some { c with pc := c.pc + 1 }
  | .push x => some { c with pc := c.pc + 1, stack := m.load c.store x :: c.stack }
  | .pop y =>
    match c.stack with
    | [] => none
    | v :: rest => some ⟨c.pc + 1, rest, m.save c.store v y⟩
  | .move y x => some { c with pc := c.pc + 1, store := m.write c.store y (m.load c.store x) }
  | .other =>
    let e := m.effect i.opcode i.plainOperands c.stack c.store
    some ⟨destination code i c.pc e.exit, e.stack, e.store⟩

/-- One step; none if the machine halts. -/
def step (code : List Instruction) (c : Config V S) : Option (Config V S) :=
  code[c.pc]?.bind fun i => perform m code i c

/-- The event that a step leaves. -/
def event (code : List Instruction) (c : Config V S) : Option (Event V S) :=
  code[c.pc]?.bind fun i =>
    match i.action with
    | .other => some ⟨i.opcode, i.plainOperands, c.stack, c.store⟩
    | _ => none

/-! ### Runs -/

/-- Any number of steps, with the events that they leave. -/
inductive Runs (code : List Instruction) : Config V S → List (Event V S) → Config V S → Prop where
  | refl (c : Config V S) : Runs code c [] c
  | head {c d e : Config V S} {events : List (Event V S)} (hstep : step m code c = some d)
      (hrest : Runs code d events e) : Runs code c ((event code c).toList ++ events) e

theorem Runs.append {m : Semantics V S} {code : List Instruction} {c d e : Config V S}
    {events events' : List (Event V S)} (h : Runs m code c events d)
    (h' : Runs m code d events' e) : Runs m code c (events ++ events') e := by
  induction h with
  | refl c => exact h'
  | head hstep _ ih =>
    rw [List.append_assoc]
    exact .head hstep (ih h')

/-- A run that ends, with its events and with what it leaves. -/
def Halts (code : List Instruction) (c : Config V S) (events : List (Event V S))
    (stack : List V) (store : S) : Prop :=
  ∃ d, Runs m code c events d ∧ step m code d = none ∧ d.stack = stack ∧ d.store = store

/-- Two starts that no observer can tell apart: whatever events the one can leave the
    other can leave too, and they halt alike. -/
structure Alike (code code' : List Instruction) (c c' : Config V S) : Prop where
  events : ∀ events, (∃ d, Runs m code c events d) ↔ ∃ d, Runs m code' c' events d
  halts : ∀ events stack store,
    Halts m code c events stack store ↔ Halts m code' c' events stack store

theorem Alike.refl (code : List Instruction) (c : Config V S) : Alike m code code c c :=
  ⟨fun _ => Iff.rfl, fun _ _ _ => Iff.rfl⟩

theorem Alike.trans {code₁ code₂ code₃ : List Instruction} {c₁ c₂ c₃ : Config V S}
    (h : Alike m code₁ code₂ c₁ c₂) (h' : Alike m code₂ code₃ c₂ c₃) :
    Alike m code₁ code₃ c₁ c₃ :=
  ⟨fun events => (h.events events).trans (h'.events events),
    fun events stack store => (h.halts events stack store).trans (h'.halts events stack store)⟩

/-! ### Simulations -/

/-- Every step of the first program is a step of the second that leaves the same event,
    or it leaves none and brings the rank down. They halt together. -/
structure Simulation (code code' : List Instruction) (R : Config V S → Config V S → Prop)
    (rank : Config V S → Nat) : Prop where
  halt : ∀ {c c'}, R c c' → step m code c = none →
    step m code' c' = none ∧ c'.stack = c.stack ∧ c'.store = c.store
  advance : ∀ {c c' d}, R c c' → step m code c = some d →
    (event code c = none ∧ R d c' ∧ rank d < rank c) ∨
      ∃ d', step m code' c' = some d' ∧ event code' c' = event code c ∧ R d d'

namespace Simulation

variable {m} {code code' : List Instruction} {R : Config V S → Config V S → Prop}
  {rank : Config V S → Nat}

/-- What the first program does the second can do. -/
theorem forward (h : Simulation m code code' R rank) {c d : Config V S}
    {events : List (Event V S)} (hrun : Runs m code c events d) :
    ∀ {c'}, R c c' → ∃ d', Runs m code' c' events d' ∧ R d d' := by
  induction hrun with
  | refl c =>
    intro c' hR
    exact ⟨c', .refl c', hR⟩
  | head hstep _ ih =>
    intro c' hR
    -- The other program takes no step, or one with the same event.
    rcases h.advance hR hstep with ⟨hevent, hR', _⟩ | ⟨d', hstep', hevent, hR'⟩
    · obtain ⟨e', hrest, hRe⟩ := ih hR'
      exact ⟨e', by simpa [hevent] using hrest, hRe⟩
    · obtain ⟨e', hrest, hRe⟩ := ih hR'
      exact ⟨e', hevent ▸ Runs.head hstep' hrest, hRe⟩

/-- What the second program does the first can do, since it cannot go on forever without
    a step of the second. -/
theorem backward (h : Simulation m code code' R rank) {c' d' : Config V S}
    {events : List (Event V S)} (hrun : Runs m code' c' events d') :
    ∀ {c}, R c c' → ∃ d, Runs m code c events d ∧ R d d' := by
  induction hrun with
  | refl c' =>
    intro c hR
    exact ⟨c, .refl c, hR⟩
  | @head c' e' d' events hstep' hrest ih =>
    intro c hR
    -- The first program may step alone a while, but its rank decreases then.
    induction hrank : rank c using Nat.strongRecOn generalizing c with
    | ind n ihRank =>
      cases hstep : step m code c with
      | none =>
        have hhalt := (h.halt hR hstep).1
        simp [hstep'] at hhalt
      | some e =>
        rcases h.advance hR hstep with ⟨hevent, hR', hlt⟩ | ⟨f', hf', hevent, hR'⟩
        · obtain ⟨d, hrun, hRd⟩ := ihRank (rank e) (hrank ▸ hlt) hR' rfl
          refine ⟨d, ?_, hRd⟩
          have hall := Runs.head hstep hrun
          simpa [hevent] using hall
        -- Both have stepped, and steps are deterministic.
        · have hsame : f' = e' := Option.some.inj (hf'.symm.trans hstep')
          subst hsame
          obtain ⟨d, hrun, hRd⟩ := ih hR'
          exact ⟨d, hevent ▸ Runs.head hstep hrun, hRd⟩

/-- If the second program has halted, the first does so without another event. -/
theorem settle (h : Simulation m code code' R rank) {c c' : Config V S} (hR : R c c')
    (hhalt : step m code' c' = none) :
    ∃ d, Runs m code c [] d ∧ step m code d = none ∧ R d c' := by
  induction hrank : rank c using Nat.strongRecOn generalizing c with
  | ind n ih =>
    -- The first program can only take silent steps, and its rank falls with each.
    cases hstep : step m code c with
    | none => exact ⟨c, .refl c, hstep, hR⟩
    | some e =>
      rcases h.advance hR hstep with ⟨hevent, hR', hlt⟩ | ⟨f', hf', _, _⟩
      · obtain ⟨d, hrun, hd, hRd⟩ := ih (rank e) (hrank ▸ hlt) hR' rfl
        refine ⟨d, ?_, hd, hRd⟩
        have hall := Runs.head hstep hrun
        simpa [hevent] using hall
      · simp [hhalt] at hf'

/-- Configurations that a simulation relates are alike. -/
theorem alike (h : Simulation m code code' R rank) {c c' : Config V S} (hR : R c c') :
    Alike m code code' c c' where
  events events := by
    constructor
    · rintro ⟨d, hrun⟩
      obtain ⟨d', hrun', _⟩ := h.forward hrun hR
      exact ⟨d', hrun'⟩
    · rintro ⟨d', hrun'⟩
      obtain ⟨d, hrun, _⟩ := h.backward hrun' hR
      exact ⟨d, hrun⟩
  halts events stack store := by
    constructor
    · rintro ⟨d, hrun, hhalt, hstack, hstore⟩
      obtain ⟨d', hrun', hRd⟩ := h.forward hrun hR
      obtain ⟨hhalt', hstack', hstore'⟩ := h.halt hRd hhalt
      exact ⟨d', hrun', hhalt', hstack'.trans hstack, hstore'.trans hstore⟩
    · rintro ⟨d', hrun', hhalt', hstack', hstore'⟩
      obtain ⟨e, hrun, hRe⟩ := h.backward hrun' hR
      -- The first program may still have to pass instructions that do nothing.
      obtain ⟨d, hrest, hhalt, hRd⟩ := h.settle hRe hhalt'
      obtain ⟨_, hstack, hstore⟩ := h.halt hRd hhalt
      refine ⟨d, by simpa using hrun.append hrest, hhalt, ?_, ?_⟩
      · rw [← hstack, hstack']
      · rw [← hstore, hstore']

end Simulation

end Machine

end StateScript
