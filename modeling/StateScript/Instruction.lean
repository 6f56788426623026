import StateScript.Number.Shortest
import StateScript.Opcode
import StateScript.Text.Escape

/-! # Instructions

  An instruction is an operation code with operands and the source position it was
  made for. While code is being made, operands may name symbols and jump targets by
  their ids in the symbol table; linking replaces these two placeholders by indices,
  and only then can an instruction be written to an object file.

  Floating point operands are kept as bits.
-/

namespace StateScript

/-- Registers of the machine. -/
inductive Register where
  /-- Left operand of arithmetic. -/
  | op1
  /-- Right operand of arithmetic. -/
  | op2
  /-- Value that a function returned. -/
  | result
  | reserved1
  | reserved2
  | reserved3
  /-- Base of the current stack frame. -/
  | frame
deriving DecidableEq, Inhabited

namespace Register

def all : List Register :=
  [.op1, .op2, .result, .reserved1, .reserved2, .reserved3, .frame]

/-- Tag of a register in an object file. -/
def tag (r : Register) : Nat := r.ctorIdx

def ofTag? (n : Nat) : Option Register := all[n]?

@[simp] theorem ofTag?_tag (r : Register) : ofTag? r.tag = some r := by
  cases r <;> rfl

def name : Register → String
  | .op1 => "op1"
  | .op2 => "op2"
  | .result => "return"
  | .reserved1 => "reserved1"
  | .reserved2 => "reserved2"
  | .reserved3 => "reserved3"
  | .frame => "frame"

end Register

/-- An argument of an instruction. -/
inductive Operand where
  | bool (b : Bool)
  | byte (n : UInt8)
  | short (n : Int16)
  | int (n : Int32)
  | long (n : Int64)
  | float (bits : UInt32)
  | double (bits : UInt64)
  | text (s : String)
  | register (r : Register)
  /-- The address in `base` plus the offset in `offset`. -/
  | registers (base offset : Register)
  /-- A slot at an offset from the frame register. -/
  | stack (i : Int)
  | stackIndexed (i : Int) (r : Register)
  /-- A slot of global memory. -/
  | memory (i : Int)
  | memoryIndexed (i : Int) (r : Register)
  /-- An instruction of the linked program. -/
  | instruction (i : Int)
  /-- A symbol of the linked program. -/
  | symbolIndex (i : Int)
  /-- Placeholder for a symbol. -/
  | symbol (id : Nat)
  /-- Placeholder for the instruction a jump target is bound to. -/
  | target (id : Nat)
deriving DecidableEq, Inhabited

namespace Operand

/-- Tag in an object file; placeholders have none. -/
def tag? : Operand → Option Nat
  | .bool _ => some 0
  | .byte _ => some 1
  | .short _ => some 2
  | .int _ => some 3
  | .long _ => some 4
  | .float _ => some 5
  | .double _ => some 6
  | .text _ => some 7
  | .register _ => some 8
  | .registers _ _ => some 9
  | .stack _ => some 10
  | .stackIndexed _ _ => some 11
  | .memory _ => some 12
  | .memoryIndexed _ _ => some 13
  | .instruction _ => some 14
  | .symbolIndex _ => some 15
  | .symbol _ | .target _ => none

/-- Operands that can be read and written. -/
def isSlot : Operand → Bool
  | .register _ | .registers _ _ | .stack _ | .stackIndexed _ _ | .memory _ | .memoryIndexed _ _ =>
    true
  | _ => false

def isPlaceholder : Operand → Bool
  | .symbol _ | .target _ => true
  | _ => false

/-- The id that a placeholder names. -/
def placeholder? : Operand → Option Nat
  | .symbol id | .target id => some id
  | _ => none

/-- Spelling in listings, where symbols are not looked up. -/
def render : Operand → String
  | .bool b => if b then "true" else "false"
  | .byte n => toString n.toNat
  | .short n => toString n.toInt
  | .int n => toString n.toInt
  | .long n => toString n.toInt
  | .float bits => Number.single.render bits.toNat
  | .double bits => Number.double.render bits.toNat
  | .text s => Text.listed s
  | .register r => r.name
  | .registers base offset => s!"[{base.name}+{offset.name}]"
  | .stack i => s!"stack[{i}]"
  | .stackIndexed i r => s!"stack[{i}+{r.name}]"
  | .memory i => s!"memory[{i}]"
  | .memoryIndexed i r => s!"memory[{i}+{r.name}]"
  | .instruction i => s!"#{i}"
  | .symbolIndex i => s!"symbol[{i}]"
  | .symbol id => s!"<symbol {id}>"
  | .target id => s!"<target {id}>"

end Operand

/-- One instruction with its source position. -/
structure Instruction where
  opcode : Opcode
  operands : List Operand := []
  line : Nat := 0
  offset : Nat := 0
  /-- Index into the table of source files. -/
  file : Nat := 0
deriving DecidableEq, Inhabited

namespace Instruction

/-- Replaces an operand, or adds one right after the last; there is no way to leave
    a gap. -/
def setOperand? (i : Instruction) (index : Nat) (x : Operand) : Option Instruction :=
  if index < i.operands.length then some { i with operands := i.operands.set index x }
  else if index = i.operands.length then some { i with operands := i.operands ++ [x] }
  else none

/-- The same instruction without a source position. -/
def withoutPosition (i : Instruction) : Instruction := { i with line := 0, offset := 0, file := 0 }

/-- Instructions that an operand of `i` points to. -/
def targets (i : Instruction) : List Int :=
  i.operands.filterMap fun
    | .instruction k => some k
    | _ => none

end Instruction

end StateScript
