import StateScript.Conversion
import StateScript.Walk.Literal

/-! # Conversions and stores

  Values are passed on the stack. Before a value is stored or combined it is popped into
  a register and converted there; `null` needs no conversion.

  A `Place` is where an assignment writes. What a place needs besides the value, an index
  or an object, is on the stack below the value.
-/

namespace StateScript.Walk

/-! ### Conversions -/

/-- Whether a value has to be changed to become one of another type. -/
def needsCast (value wanted : ValueType) : Bool := value != wanted && value.primitive != .null

/-- Pops a value into a register, converted. -/
@[reducible] def popInto (value wanted : ValueType) (register : Register) : Walk Unit := do
  emitFor value .pop [.register register]
  if needsCast value wanted then emitFor wanted .cast [.register register]

/-- Converts the value on top of the stack. -/
@[reducible] def coerce (value wanted : ValueType) : Walk Unit := do
  if (← emitting) && needsCast value wanted then
    popInto value wanted .op1
    emitFor wanted .push [op1]

/-! ### Stores -/

@[reducible] def checkAssignable (value wanted : ValueType) (index : Nat) : Walk Unit := do
  if (← emitting) && !value.convertsTo wanted then
    errorAt index .invalidCast s!"cannot assign {value.render} to {wanted.render}"

@[reducible] def noteImplicitCast (value wanted : ValueType) : Walk Unit := do
  if value.primitive != wanted.primitive && value.primitive != .null then
    notify .implicitCast .message s!"implicit cast from {value.render} to {wanted.render}"

/-- Pops a value and stores it as a value of another type. -/
@[reducible] def store (value wanted : ValueType) (slot : Operand) (index : Nat) : Walk Unit := do
  if ← emitting then
    checkAssignable value wanted index
    if needsCast value wanted then
      popInto value wanted .op1
      emitFor wanted .mov [slot, op1]
      noteImplicitCast value wanted
    else emitFor wanted .pop [slot]

/-- Pops a value and stores it in a variable. -/
@[reducible] def storeVariable (id : Nat) (value : ValueType) : Walk Unit := do
  let wanted ← variableType id
  let place ← slot id
  store value wanted place ((← position) - 1)

/-! ### Places -/

/-- Where an assignment writes. -/
inductive Place where
  | plain (id : Nat) (type : ValueType)
  /-- An element of an array; its index is on the stack. -/
  | element (id : Nat) (type : ValueType)
  /-- A member; the object, and the index if there is one, are on the stack. -/
  | member (id : Nat) (type : ValueType) (isIndexed : Bool)
  /-- A name that the first walk has not seen yet. -/
  | unknown
deriving DecidableEq

def Place.type : Place → ValueType
  | .plain _ type | .element _ type | .member _ type _ => type
  | .unknown => .invalid

/-- Pops a value and stores it in a place. -/
def storePlace (place : Place) (value : ValueType) (index : Nat) : Walk Unit := do
  if ← emitting then
    match place with
    | .plain id type => store value type (← slot id) index
    | .element id type =>
      checkAssignable value type index
      popInto value type .op1
      emit (.pop (.numeric .int)) [op2]
      let mov ← opcodeFor type .mov
      emit mov [← indexedSlot id .op2, op1]
      noteImplicitCast value type
    | .member id type isIndexed =>
      checkAssignable value type index
      popInto value type .op1
      if isIndexed then
        emit (.pop (.numeric .int)) [op2]
        emit (.pop .object) [reserved1]
        emit .setMemberIndexed [reserved1, .symbol id, op2, op1]
      else
        emit (.pop .object) [reserved1]
        emit .setMember [reserved1, .symbol id, op1]
      noteImplicitCast value type
    | .unknown => return

/-- Pushes the value of a place and keeps what the place needs below it. -/
def loadPlace (place : Place) : Walk ValueType := do
  match place with
  | .plain id type =>
    markUsed id
    let push ← opcodeFor type .push
    emit push [← slot id]
    return type
  | .element id type =>
    markUsed id
    emit (.pop (.numeric .int)) [reserved1]
    emit (.push (.numeric .int)) [reserved1]
    let push ← opcodeFor type .push
    emit push [← indexedSlot id .reserved1]
    return type
  | .member id type isIndexed =>
    markUsed id
    if isIndexed then emit (.pop (.numeric .int)) [reserved2]
    emit (.pop .object) [reserved1]
    emit (.push .object) [reserved1]
    if isIndexed then
      emit (.push (.numeric .int)) [reserved2]
      emit .getMemberIndexed [reserved1, .symbol id, reserved2]
    else emit .getMember [reserved1, .symbol id]
    emitFor type .push [reserved1]
    return type
  | .unknown => return .invalid

end StateScript.Walk
