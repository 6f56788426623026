import StateScript.Token.Kind

/-! # Conversions between types

  Which values may stand where a type is expected, and which operators a type has.
  Scalars other than `object` convert freely into each other. An array converts
  only into the same array type. `null` fits every array, `object` and `string`.
-/

namespace StateScript

namespace ValueType

/-- Types whose values may be `null`. -/
def isNullable (t : ValueType) : Bool :=
  t.isArray || t.primitive == .object || t.primitive == .string

/-- Whether a value of type `source` may be used where `target` is expected,
    without a cast in the script. -/
def convertsTo (source target : ValueType) : Bool :=
  if target = source then true
  else if target.isVoid || source.isVoid || target.isInvalid || source.isInvalid then false
  else if source.isNull then target.isNullable
  else if target.isNull then source.isNullable
  else if target.isArray != source.isArray then false
  else if target.isArray then target.primitive == source.primitive
  else if target.isReference != source.isReference then false
  else target.primitive != .object && source.primitive != .object

/-- Whether a cast in the script may turn `source` into `target`. An `object` may be
    narrowed to an array and widened back; whether the value fits is seen at run time. -/
def castsTo (source target : ValueType) : Bool :=
  if source.convertsTo target then true
  else if target.isVoid || source.isVoid then false
  else if target.isArray != source.isArray then
    let single := if target.isArray then source else target
    single.primitive == .object && !single.isArray
  else !target.isArray

/-- Types that a console command may take as a parameter. -/
def isConsoleParameter (t : ValueType) : Bool :=
  !t.isArray &&
    match t.primitive with
    | .bool | .int | .float | .string => true
    | _ => false

end ValueType

/-- Whether an operator applies to operands of a type. -/
def Kind.appliesTo (op : Kind) (t : ValueType) : Bool :=
  if t.isArray then op == .equal || op == .notEqual
  else
    match op with
    | .plus => t.primitive.isNumeric || t.primitive == .string
    | .minus | .star | .slash | .percent | .increment | .decrement => t.primitive.isNumeric
    | .caret | .pipe | .ampersand | .shiftLeft | .shiftRight | .tilde => t.primitive == .int
    | .logicalAnd | .logicalOr | .not => t.primitive == .bool
    | .equal | .notEqual => t.primitive != .void && t.primitive != .invalid
    | .less | .greater | .lessEqual | .greaterEqual =>
      match t.primitive with
      | .object | .string | .null | .void | .invalid => false
      | _ => true
    | _ => false

end StateScript
