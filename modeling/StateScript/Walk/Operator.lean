import StateScript.Walk.Store

/-! # Operators

  Operands are on the stack and so is the result. The right operand is converted to the
  type of the left, unless the left one is `null`; a comparison gives a `bool`.
-/

namespace StateScript.Walk

/-- The relation that a comparison asks for. -/
def relationOf : Kind → Relation
  | .equal => .eq
  | .notEqual => .ne
  | .less => .lt
  | .greater => .gt
  | .lessEqual => .le
  | _ => .ge

/-- The code of a binary operator that is not a comparison. -/
def binaryOpcode (op : Kind) (type : ValueType) : Walk Opcode :=
  match op with
  | .plus => opcodeFor type (.arithmetic .add)
  | .minus => opcodeFor type (.arithmetic .sub)
  | .star => opcodeFor type (.arithmetic .mul)
  | .slash => opcodeFor type (.arithmetic .div)
  | .percent => opcodeFor type (.arithmetic .mod)
  | .caret => return .bitwise .xor
  | .pipe => return .bitwise .or
  | .ampersand => return .bitwise .and
  | .shiftLeft => return .bitwise .shl
  | .shiftRight => return .bitwise .shr
  | .logicalAnd => return .logicalAnd
  | _ => return .logicalOr

@[reducible] def invalidOperator {α : Type} (index : Nat) (op : Kind) (type : ValueType) : Walk α :=
  errorAt index .invalidOperator s!"operator {op.describe} cannot be applied to {type.render}"

/-- Checks that an operator at `index` applies to two values as values of a type. -/
@[reducible] def checkOperands (op : Kind) (left right type : ValueType) (index : Nat) :
    Walk Unit := do
  if !right.convertsTo type || !left.convertsTo type then
    errorAt index .invalidCast
      s!"cannot combine {left.render} and {right.render} with {op.describe}"
  if !op.appliesTo type then invalidOperator index op type

/-- Pops both operands; the right one is converted. -/
@[reducible] def popOperands (left right type : ValueType) : Walk Unit := do
  let popRight ← opcodeFor right .pop
  let popLeft ← opcodeFor left .pop
  emit popRight [op2]
  emit popLeft [op1]
  if needsCast right type then emitFor type .cast [op2]

/-- Applies a binary operator that stands at `index`. -/
def binary (op : Kind) (left right : ValueType) (index : Nat) : Walk ValueType := do
  let type := if left.isNull then right else left
  let outcome := if op.isRelational then .bool else type
  if ← emitting then
    checkOperands op left right type index
    popOperands left right type
    if op.isRelational then
      emitFor type .cmp [op1, op2]
      emit (.is (relationOf op)) [op1]
      emit (.push .bool) [op1]
    else
      let opcode ← binaryOpcode op type
      emit opcode [op1, op2]
      emitFor type .push [op1]
  return outcome

/-- Whether an operator in front of an operand applies to it. -/
def prefixApplies (op : Kind) (type : ValueType) : Bool :=
  if op = .plus then !type.isArray && type.primitive.isNumeric else op.appliesTo type

/-- The code of an operator in front of an operand. -/
def prefixOpcode (op : Kind) (type : ValueType) : Walk Opcode :=
  match op with
  | .minus => opcodeFor type (.arithmetic .neg)
  | .not => return .logicalNot
  | _ => return .bitwise .not

/-- Applies an operator in front of an operand, which stands at `index`. -/
def unaryOperator (op : Kind) (type : ValueType) (index : Nat) : Walk ValueType := do
  let outcome := if op = .not then .bool else type
  if ← emitting then
    if !prefixApplies op type then invalidOperator index op type
    if op != .plus then
      let opcode ← prefixOpcode op type
      let pop ← opcodeFor type .pop
      let push ← opcodeFor type .push
      emit pop [op1]
      emit opcode [op1]
      emit push [op1]
  return outcome

/-- Casts the value on top of the stack, as a cast at `index` asks for. -/
@[reducible] def castTo (wanted value : ValueType) (index : Nat) : Walk ValueType := do
  if ← emitting then
    if !value.castsTo wanted then
      errorAt index .invalidCast s!"cannot cast {value.render} to {wanted.render}"
    if wanted != value then
      let pop ← opcodeFor value .pop
      let cast ← opcodeFor wanted .cast
      let push ← opcodeFor wanted .push
      emit pop [op1]
      emit cast [op1]
      emit push [op1]
  return wanted

/-- The arithmetic of `++` and `--`. -/
def stepOperation (op : Kind) : Operation :=
  if op = .increment then .arithmetic .inc else .arithmetic .dec

/-- Steps a variable in place for an operator at `index`. -/
@[reducible] def stepVariable (id : Nat) (op : Kind) (index : Nat) : Walk Unit := do
  let (type, isConstant) ← variableTraits id
  if ← emitting then
    if isConstant then
      let name := (← symbol id).identifier
      errorAt index .illegalAssignment s!"cannot modify constant '{name}'"
    if !op.appliesTo type then invalidOperator index op type
  let opcode ← opcodeFor type (stepOperation op)
  emit opcode [← slot id]

end StateScript.Walk
