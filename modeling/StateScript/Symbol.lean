import StateScript.Instruction
import StateScript.Token.Basic

/-! # Symbols

  Whatever a script declares is a symbol: functions, variables, states,
  enumerations and namespaces; so are the texts it uses, the annotations it makes
  and the places it jumps to. Every symbol but two has an owner, its scope.
-/

namespace StateScript

/-! ### Functions -/

/-- Who may use a declaration. -/
inductive Access where
  | everyone
  | owner
  | heirs
deriving DecidableEq, Inhabited

namespace Access

def all : List Access := [.everyone, .owner, .heirs]

/-- Tag in an object file. -/
def tag (a : Access) : Nat := a.ctorIdx

def ofTag? (n : Nat) : Option Access := all[n]?

@[simp] theorem ofTag?_tag (a : Access) : ofTag? a.tag = some a := by
  cases a <;> rfl

end Access

/-- Properties of a function, stored as the bits of one byte. -/
structure FunctionFlags where
  /-- A call starts a thread. -/
  thread : Bool := false
  /-- Handler of an event inside a state. -/
  event : Bool := false
  /-- Can be called from the console. -/
  console : Bool := false
  /-- Has no body here; the host provides it. -/
  imported : Bool := false
  /-- Can be called from other units. -/
  exported : Bool := false
  /-- A method, known only from calls through `->`. -/
  method : Bool := false
deriving DecidableEq, Inhabited

namespace FunctionFlags

def toBits (f : FunctionFlags) : Nat :=
  f.thread.toNat + 2 * f.event.toNat + 4 * f.console.toNat + 8 * f.imported.toNat +
    16 * f.exported.toNat + 32 * f.method.toNat

/-- Reads the known bits and ignores the others. -/
def ofBits (bits : Nat) : FunctionFlags where
  thread := bits.testBit 0
  event := bits.testBit 1
  console := bits.testBit 2
  imported := bits.testBit 3
  exported := bits.testBit 4
  method := bits.testBit 5

@[simp] theorem ofBits_toBits (f : FunctionFlags) : ofBits f.toBits = f := by
  rcases f with ⟨a, b, c, d, e, g⟩
  cases a <;> cases b <;> cases c <;> cases d <;> cases e <;> cases g <;> decide

end FunctionFlags

/-- A function, with the code made for it until linking takes the code away. -/
structure Function where
  parameterCount : Nat := 0
  /-- Types of the parameters in order; they tell overloads apart. -/
  parameterTypes : List ValueType := []
  returnType : ValueType := .void
  /-- Its first instruction in the linked program. -/
  entryPoint : Option Nat := none
  /-- How many locals a frame holds. -/
  frameSize : Nat := 0
  flags : FunctionFlags := {}
  access : Access := .everyone
  used : Bool := false
  code : Array Instruction := #[]
deriving DecidableEq, Inhabited

/-! ### Variables -/

/-- What a variable is to its owner. -/
inductive VariableKind where
  | parameter
  | constant
  | local
  | global
  | member
deriving DecidableEq, Inhabited

namespace VariableKind

def all : List VariableKind := [.parameter, .constant, .local, .global, .member]

/-- Tag in an object file. -/
def tag (k : VariableKind) : Nat := k.ctorIdx

def ofTag? (n : Nat) : Option VariableKind := all[n]?

@[simp] theorem ofTag?_tag (k : VariableKind) : ofTag? k.tag = some k := by
  cases k <;> rfl

/-- Globals and constants live in memory, all else on the stack. -/
def usesMemory : VariableKind → Bool
  | .global | .constant => true
  | _ => false

end VariableKind

/-- Where the value of a variable lives. -/
inductive Storage where
  /-- At an offset from the frame register. -/
  | stack (i : Int)
  /-- In a slot of global memory. -/
  | memory (i : Int)
deriving DecidableEq, Inhabited

structure Variable where
  kind : VariableKind
  type : ValueType
  isConstant : Bool := false
  isProperty : Bool := false
  storage : Storage
  /-- Literal value of a constant, which stands in for it wherever it is used. -/
  literal : Option Token := none
  used : Bool := false
  access : Access := .everyone
deriving DecidableEq, Inhabited

/-! ### Symbols -/

/-- What a symbol is. -/
inductive SymbolKind where
  | function (f : Function)
  | var (v : Variable)
  | state (engine editor : Bool)
  | enumeration
  | space
  /-- A text; the name of the symbol is the text. -/
  | text
  | metadata (value : String)
  /-- A place in the code of the owning function. -/
  | target (bound : Option Nat)
deriving DecidableEq, Inhabited

namespace SymbolKind

/-- Tag in an object file. -/
def tag : SymbolKind → Nat
  | .function _ => 0
  | .var _ => 1
  | .state _ _ => 2
  | .enumeration => 3
  | .space => 4
  | .text => 5
  | .metadata _ => 6
  | .target _ => 7

def function? : SymbolKind → Option Function
  | .function f => some f
  | _ => none

def var? : SymbolKind → Option Variable
  | .var v => some v
  | _ => none

def isFunction : SymbolKind → Bool
  | .function _ => true
  | _ => false

def isState : SymbolKind → Bool
  | .state _ _ => true
  | _ => false

def isText : SymbolKind → Bool
  | .text => true
  | _ => false

def isSpace : SymbolKind → Bool
  | .space => true
  | _ => false

def isTarget : SymbolKind → Bool
  | .target _ => true
  | _ => false

/-- Symbols that may own further named declarations. -/
def isContainer : SymbolKind → Bool
  | .function _ | .state _ _ | .enumeration | .space => true
  | _ => false

/-- Declarations whose names may not be repeated within a scope; functions may, if
    their parameters differ. -/
def isExclusive : SymbolKind → Bool
  | .var _ | .state _ _ | .enumeration | .space => true
  | _ => false

def mapFunction (g : Function → Function) : SymbolKind → SymbolKind
  | .function f => .function (g f)
  | k => k

def mapVariable (g : Variable → Variable) : SymbolKind → SymbolKind
  | .var v => .var (g v)
  | k => k

/-- Marks a variable or a function as used. -/
def markUsed : SymbolKind → SymbolKind
  | .var v => .var { v with used := true }
  | .function f => .function { f with used := true }
  | k => k

/-- Where control may enter through this symbol. -/
def landing? : SymbolKind → Option Nat
  | .function f => f.entryPoint
  | .target bound => bound
  | _ => none

/-- The same symbol after instructions have been renumbered. -/
def renumber (g : Nat → Nat) : SymbolKind → SymbolKind
  | .function f => .function { f with entryPoint := f.entryPoint.map g }
  | .target bound => .target (bound.map g)
  | k => k

end SymbolKind

/-- A declaration with its place in the tree of scopes. -/
structure Symbol where
  /-- Position among the children of its scope. -/
  index : Nat := 0
  identifier : String
  /-- Id of the owner; a root has none. -/
  scope : Option Nat := none
  /-- Ids of the declarations it owns, in order. -/
  children : List Nat := []
  kind : SymbolKind
deriving DecidableEq, Inhabited

end StateScript
