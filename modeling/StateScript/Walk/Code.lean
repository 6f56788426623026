import StateScript.Walk.Report

/-! # Emitting code

  The second walk appends instructions to the current function; the first emits none.
  An instruction carries the position of the last token taken. Jumps name a target, which
  is bound to the place of the next instruction once the walk gets there.
-/

namespace StateScript.Walk

/-! ### Operands -/

def op1 : Operand := .register .op1

def op2 : Operand := .register .op2

def reserved1 : Operand := .register .reserved1

def reserved2 : Operand := .register .reserved2

/-- Where a function leaves its value. -/
def result : Operand := .register .result

/-! ### Appending -/

/-- The index of a file in the table of files, which gets it if it is new. -/
def fileIndex (files : List String) (file : String) : List String × Nat :=
  match files.idxOf? file with
  | some i => (files, i)
  | none => (files ++ [file], files.length)

/-- Puts an instruction into the code at a place; beyond the end, at the end. -/
def insertAt (code : Array Instruction) (place : Nat) (i : Instruction) : Array Instruction :=
  if h : place ≤ code.size then code.insertIdx place i h else code.push i

/-- Puts an instruction into the code at a place or, without one, at the end. -/
def putAt (code : Array Instruction) (place : Option Nat) (i : Instruction) : Array Instruction :=
  match place with
  | none => code.push i
  | some place => insertAt code place i

/-- The function that gets the code. -/
def State.current? (s : State) : Option Function :=
  (s.table.get? s.function).bind (·.kind.function?)

/-- Gives the current function an instruction. -/
def State.emit (s : State) (opcode : Opcode) (operands : List Operand) (place : Option Nat) :
    State :=
  let ⟨line, offset, file⟩ := s.location (s.pos - 1)
  let (files, file) := fileIndex s.files file
  let i : Instruction := { opcode, operands, line, offset, file }
  let function := s.function
  let history := if s.current?.isSome then .put function place i :: s.history else s.history
  { s with
    files
    history
    table := s.table.modifyKind function
      (·.mapFunction fun f => { f with code := putAt f.code place i }) }

/-- Appends an instruction to the current function. -/
def emit (opcode : Opcode) (operands : List Operand) : Walk Unit := do
  if ← emitting then
    ensure fun s => s.knows [s.function]
    change (·.emit opcode operands none)

/-- Inserts an instruction into the current function. -/
def emitAt (place : Nat) (opcode : Opcode) (operands : List Operand) : Walk Unit := do
  if ← emitting then
    ensure fun s => s.knows [s.function]
    change (·.emit opcode operands (some place))

/-- How many instructions the current function has. -/
def State.here (s : State) : Nat :=
  match s.current? with
  | some f => f.code.size
  | none => 0

/-- The place that the next instruction gets. -/
@[reducible] def here : Walk Nat := do
  ensure fun s => s.knows [s.function]
  view State.here

/-! ### Jumps -/

@[reducible] def jump (opcode : Opcode) (target : Nat) : Walk Unit := emit opcode [.target target]

/-- A kind with a place, if it is that of a target. -/
def placed (place : Nat) : SymbolKind → SymbolKind
  | .target _ => .target (some place)
  | kind => kind

/-- Binds a target to the place of the next instruction. -/
def State.bind (s : State) (target : Nat) : State :=
  let place := s.here
  let history := .bind target s.function place :: s.history
  { s with
    history
    table := s.table.modifyKind target (placed place) }

@[inherit_doc State.bind]
def bind (target : Nat) : Walk Unit := do
  if ← emitting then
    ensure fun s => s.knows [s.function, target]
    change (·.bind target)

/-! ### Codes by type -/

/-- The code of an operation on a type. In the first walk any code will do. -/
def opcodeFor (t : ValueType) (op : Operation) : Walk Opcode := do
  match t.opcode? op with
  | some opcode => return opcode
  | none =>
    if ← emitting then
      errorHere .invalidOperator s!"no {op.name} instruction exists for {t.render}"
    else return .nop

/-- Emits the instruction of an operation on a type. -/
@[reducible] def emitFor (t : ValueType) (op : Operation) (operands : List Operand) :
    Walk Unit := do
  emit (← opcodeFor t op) operands

end StateScript.Walk
