import StateScript.Number.Numeral
import StateScript.Walk.Code
import StateScript.Walk.Scope

/-! # Literals

  A literal becomes an operand of the type that the context asks for. A whole number
  fits a type of `n` bits if it can be written with `n` bits, be it with or without a
  sign; what is left of it is its low bits.
-/

namespace StateScript.Walk

open Number

/-- What a literal denotes where a number is asked for. A text denotes none. -/
def literalValue? (t : Token) : Option Numeral :=
  match t.kind with
  | .booleanLiteral => some (.ofBool (t.text.toList.map Char.toLower == "true".toList))
  | .stringLiteral => none
  | _ => Numeral.ofText? t.text

/-- Whether a whole number can be written with `bits` bits, with or without a sign. -/
def fits (bits : Nat) (n : Int) : Bool := -(pow2 (bits - 1) : Int) ≤ n && n < pow2 bits

/-- A number as an operand of a type, if it has a place there. -/
def numeralOperand? (n : Numeral) (t : ValueType) : Option Operand :=
  if t.isArray then none
  else
    match t.primitive with
    | .bool => some (.bool n.isTrue)
    | .byte => if fits 8 n.whole then some (.byte (UInt8.ofNat (n.whole % 256).toNat)) else none
    | .short => if fits 16 n.whole then some (.short (Int16.ofInt n.whole)) else none
    | .int => if fits 32 n.whole then some (.int (Int32.ofInt n.whole)) else none
    | .long => some (.long (Int64.ofInt n.whole))
    | .float => some (.float (UInt32.ofNat (narrow n.real)))
    | .double => some (.double (UInt64.ofNat n.real))
    | _ => none

/-- The operand of a literal as a value of a type. As a text it is interned. -/
def literalOperand (t : Token) (type : ValueType) : Walk Operand := do
  if !type.isArray && type.primitive == .string then return .symbol (← intern t.text)
  else
    match (literalValue? t).bind (numeralOperand? · type) with
    | some x => return x
    | none => errorHere .invalidLiteral s!"'{t.render}' is not a valid {type.render} literal"

/-- A literal with a minus sign in front. -/
def negated (t : Token) : Token := { t with text := "-" ++ t.text }

/-- Takes a literal, with or without a minus sign, and pushes it as a value of its own
    type. -/
@[reducible] def literalExpression : Walk ValueType := do
  let isNegative ← eat .minus
  let t ← advance
  let t := if isNegative then negated t else t
  let type := t.kind.literalType
  let x ← literalOperand t type
  emitFor type .push [x]
  return type

/-- Takes a literal, with or without a minus sign, if one of the given kinds follows. -/
def foldedLiteral? (ends : List Kind) : Walk (Option Token) := do
  let isNegative ← check .minus
  let place := (← position) + isNegative.toNat
  match ← tokenAt place, (← tokenAt (place + 1)).map Token.kind with
  | some t, some next =>
    if t.kind.isLiteral && (!isNegative || t.kind.isNumericLiteral) && ends.contains next then
      moveTo (place + 1)
      return some (if isNegative then negated t else t)
    else return none
  | _, _ => return none

end StateScript.Walk
