/-! # Types of script values

  A value type is a primitive with two markers, one for arrays and one for
  references. Two value types are equal only if all three parts agree. The
  primitive `invalid` is the type of an expression that could not be resolved
  yet, and `null` is the type of the literal of that name.
-/

namespace StateScript

/-- Primitive kinds of values, in the order of their tags in an object file. -/
inductive Primitive where
  | object
  | string
  | bool
  | byte
  | int
  | short
  | float
  | long
  | double
  | void
  | null
  | invalid
deriving DecidableEq, Inhabited

namespace Primitive

/-- Every primitive, in the order of the tags. -/
def all : List Primitive :=
  [.object, .string, .bool, .byte, .int, .short, .float, .long, .double, .void, .null, .invalid]

/-- Tag of a primitive in an object file. -/
def tag (p : Primitive) : Nat := p.ctorIdx

def ofTag? (n : Nat) : Option Primitive := all[n]?

@[simp] theorem ofTag?_tag (p : Primitive) : ofTag? p.tag = some p := by
  cases p <;> rfl

/-- Spelling in scripts and in diagnostics. -/
def name : Primitive → String
  | .object => "object"
  | .string => "string"
  | .bool => "bool"
  | .byte => "byte"
  | .int => "int"
  | .short => "short"
  | .float => "float"
  | .long => "long"
  | .double => "double"
  | .void => "void"
  | .null => "null"
  | .invalid => "<invalid>"

/-- The integral and floating point primitives. -/
def isNumeric : Primitive → Bool
  | .byte | .short | .int | .long | .float | .double => true
  | _ => false

end Primitive

/-- A primitive with its array and reference markers. -/
structure ValueType where
  primitive : Primitive
  isArray : Bool := false
  isReference : Bool := false
deriving DecidableEq, Inhabited

namespace ValueType

/-! ### Named types -/

def scalar (p : Primitive) : ValueType := { primitive := p }

def array (p : Primitive) : ValueType := { primitive := p, isArray := true }

def void : ValueType := scalar .void

def null : ValueType := scalar .null

def invalid : ValueType := scalar .invalid

def int : ValueType := scalar .int

def bool : ValueType := scalar .bool

def object : ValueType := scalar .object

/-! ### Views -/

/-- Type of a single element of an array of this type. -/
def element (t : ValueType) : ValueType := { t with isArray := false }

/-- An array of `void` is not `void`. -/
def isVoid (t : ValueType) : Bool := t.primitive == .void && !t.isArray

def isInvalid (t : ValueType) : Bool := t.primitive == .invalid

/-- The scalar type of the `null` literal. -/
def isNull (t : ValueType) : Bool := t.primitive == .null && !t.isArray

/-- Spelling in diagnostics: `ref int[]`. -/
def render (t : ValueType) : String :=
  (if t.isReference then "ref " else "") ++ t.primitive.name ++ (if t.isArray then "[]" else "")

end ValueType

end StateScript
