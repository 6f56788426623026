import StateScript.Define
import StateScript.Flags
import StateScript.Symbol
import StateScript.Symbol.Path

/-! # Object files

  A linked compilation unit: the flat list of its symbols and one list of
  instructions, in which each function has a contiguous body that starts at its
  entry point. Symbols refer to each other by their positions in the list; the
  position and the children of a symbol are signed fields, because a file may hold
  any 32-bit value there.
-/

namespace StateScript

/-- A symbol of a linked unit. -/
structure Entry where
  /-- Its own position in the list of symbols. -/
  index : Int := 0
  identifier : String := ""
  /-- Position of its owner. -/
  scope : Option Nat := none
  /-- Positions of the declarations it owns. -/
  children : List Int := []
  kind : SymbolKind
deriving DecidableEq, Inhabited

/-- A linked compilation unit. -/
structure Object where
  flags : Flags := {}
  /-- How many locals were made up by the compiler. -/
  internalVariables : Int := 0
  /-- How many slots of global memory are used. -/
  memorySize : Int := 0
  globalScope : Nat := 0
  memberScope : Nat := 0
  engineState : Option Nat := none
  editorState : Option Nat := none
  defines : List Define := []
  symbols : List Entry := []
  /-- Source files that positions of instructions refer to. -/
  files : List String := []
  instructions : List Instruction := []
deriving DecidableEq, Inhabited

namespace Object

/-- The function at a position, if there is one. -/
def function? (o : Object) (index : Nat) : Option Function :=
  o.symbols[index]?.bind (·.kind.function?)

/-- The entry points of all functions, in the order of the symbols. -/
def entryPoints (o : Object) : List Nat :=
  o.symbols.filterMap fun e => e.kind.function?.bind (·.entryPoint)

/-- Where the body that starts at `entry` ends: at the next entry point, or with the
    program. -/
def bodyEnd (o : Object) (entry : Nat) : Nat :=
  ((o.entryPoints.filter (entry < ·)).min?).getD o.instructions.length

/-- Instructions of the function at a position. -/
def functionBody (o : Object) (index : Nat) : List Instruction :=
  match (o.function? index).bind (·.entryPoint) with
  | none => []
  | some entry => (o.instructions.take (o.bodyEnd entry)).drop entry

/-- The identifier and the owner of a symbol. -/
def lookup (o : Object) (index : Nat) : Option (String × Option Nat) :=
  o.symbols[index]?.map fun e => (e.identifier, e.scope)

/-- Identifiers from the root down to a symbol, joined by dots. -/
def qualifiedName (o : Object) (index : Nat) : String :=
  StateScript.qualifiedName o.lookup o.symbols.length index

end Object

end StateScript
