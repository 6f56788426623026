import StateScript.Diagnostic
import StateScript.Symbol.Table

/-! # Walking over a script

  A script is compiled by walking over its tokens twice along the same grammar. The
  first walk declares: it makes all symbols and checks declarations. The second walk
  emits: it finds these symbols again by the token that declared them, checks types and
  appends instructions to the functions. So a name may be used before its declaration.

  A walk is a computation on `Walk.State`. It stops early for one of three reasons:

  - `abandoned`: a statement is at fault; the walk goes on after it;
  - `fatal`: the compilation is over, and the log says why;
  - `broken`: a symbol or a token is missing that had to be there, or a loop took more
    turns than there are tokens. Nothing in a script can bring this about.

  A walk looks at no symbol and at no rest of the tokens before it is sure that they are
  there: `symbol` and `ensure` are how it makes sure.

  Loops take at most one turn per token and one to find that nothing is left; `loop`
  supplies this bound.
-/

namespace StateScript

/-! ### Parts of the state -/

/-- Which of the two walks is under way. -/
inductive Pass where
  | declare
  | emit
deriving DecidableEq, Inhabited

/-- Tells apart the symbols that one token declares. -/
inductive Role where
  | function
  /-- A function without a body. -/
  | imported
  | variable
  | parameter
  | state
  | enumeration
  /-- A member of an enumeration. -/
  | member
  | label
  | otherwise
  | stop
  | start
  | resume
  | counter
  | limit
  | value
  | test
  | body
deriving DecidableEq, Inhabited

/-- Spelling in diagnostics. -/
def Role.name : Role → String
  | .function | .imported | .variable | .parameter | .state | .enumeration | .member | .label =>
    "Declaration"
  | .otherwise => "Else"
  | .stop => "End"
  | .start => "Start"
  | .resume => "Continue"
  | .counter => "Counter"
  | .limit => "Limit"
  | .value => "Value"
  | .test => "Test"
  | .body => "Body"

/-- The open exclusive regions, each with the token that opened it. -/
structure Regions where
  lock : Option Nat := none
  atom : Option Nat := none
deriving DecidableEq, Inhabited

/-- An enclosing loop or switch. -/
structure LoopFrame where
  breakTarget : Nat
  /-- A switch has none. -/
  continueTarget : Option Nat := none
  /-- Variable that counts the turns of a counted loop. -/
  counter : Option Nat := none
  /-- Regions that were open where it starts. -/
  regions : Regions
deriving DecidableEq, Inhabited

/-- A symbol together with the token and the role that it was declared for. -/
structure Declared where
  token : Nat
  role : Role
  symbol : Nat
  /-- Function in which it was declared. -/
  function : Nat
  /-- Regions that were open there. -/
  regions : Regions
deriving DecidableEq, Inhabited

/-- What happens to the code of a function. -/
inductive CodeEvent where
  /-- It gets an instruction, at a place or at the end. -/
  | put (function : Nat) (place : Option Nat) (i : Instruction)
  /-- A target is bound to a place in it. -/
  | bind (target function place : Nat)
deriving DecidableEq, Inhabited

/-! ### The state -/

namespace Walk

/-- Id of the function that holds what stands outside of functions. -/
def globalScope : Nat := 0

/-- Id of the scope of everything that is reached through `->`. -/
def memberScope : Nat := 1

/-- The state of a walk. -/
structure State where
  flags : Flags
  tokens : Array Token
  /-- The next token. -/
  pos : Nat := 0
  pass : Pass := .declare
  log : Log
  table : Table
  /-- Innermost scope of declarations. -/
  scope : Nat := globalScope
  /-- Function that gets the code. -/
  function : Nat := globalScope
  /-- Newest first. -/
  declared : List Declared := []
  /-- What the second walk has found again so far, newest first. -/
  recalled : List Declared := []
  /-- Tokens whose declaration was refused. -/
  rejected : List Nat := []
  /-- Innermost first. -/
  loops : List LoopFrame := []
  /-- Locals of the open blocks: innermost block first, newest local first. -/
  blocks : List (List Nat) := []
  regions : Regions := {}
  /-- Keys and values for the next declaration. -/
  metadata : List (String × String) := []
  memorySize : Nat := 0
  internalVariables : Nat := 0
  /-- Locals of the current function so far. -/
  localCount : Nat := 0
  engineState : Option Nat := none
  editorState : Option Nat := none
  /-- Source files that instructions refer to. -/
  files : List String := []
  /-- What has happened to code so far, newest first. -/
  history : List CodeEvent := []

/-- The table that every compilation starts with. -/
def initialTable : Table :=
  (Table.empty.add none "$global" (.function {})).add none "$member" .space

def State.initial (flags : Flags) (tokens : List Token) : State :=
  { flags, tokens := tokens.toArray, log := { flags }, table := initialTable }

/-- Why a walk stops early. -/
inductive Stop where
  | abandoned
  | fatal
  | broken
deriving DecidableEq, Inhabited

end Walk

/-- A computation of a walk. -/
abbrev Walk := EStateM Walk.Stop Walk.State

namespace Walk

/-! ### Reading the state -/

/-- A view of the state. -/
@[inline] def view {α : Type} (f : State → α) : Walk α := fun s => .ok (f s) s

/-- A change of the state. -/
@[inline] def change (f : State → State) : Walk Unit := fun s => .ok () (f s)

def position : Walk Nat := view (·.pos)

def tokenCount : Walk Nat := view (·.tokens.size)

/-- Whether this is the second walk. -/
def emitting : Walk Bool := view (·.pass == .emit)

/-- Whether the walk is inside a function of the script. -/
def inFunction : Walk Bool := view (·.function != globalScope)

/-- The symbol of an id. -/
def symbol (id : Nat) : Walk Symbol := fun s =>
  match s.table.get? id with
  | some x => .ok x s
  | none => .error .broken s

/-- Whether there are symbols of all these ids. -/
def State.knows (s : State) (ids : List Nat) : Bool := ids.all (· < s.table.size)

/-- Breaks off unless something holds that the walk counts on. -/
def ensure (holds : State → Bool) : Walk Unit := fun s =>
  if holds s then .ok () s else .error .broken s

/-- Changes what a symbol is. -/
def modifyKind (id : Nat) (f : SymbolKind → SymbolKind) : Walk Unit := do
  ensure (·.knows [id])
  change fun s => { s with table := s.table.modifyKind id f }

/-! ### Control -/

/-- Runs `x` and then restores what it changed, whether it stops early or not. -/
@[inline] def protect {α : Type} (restore : State → State) (x : Walk α) : Walk α := fun s =>
  match x s with
  | .ok a s => .ok a (restore s)
  | .error e s => .error e (restore s)

/-- What a turn of a loop leads to. -/
inductive Turn (α β : Type) where
  | again (a : α)
  | done (b : β)

/-- At most `n` turns. -/
def iterate {α β : Type} (turn : α → Walk (Turn α β)) : Nat → α → Walk β
  | 0, _ => throw .broken
  | n + 1, a => do
    match ← turn a with
    | .again a => iterate turn n a
    | .done b => return b

/-- Repeats until a turn is the last. Every turn but the last moves on by a token. -/
def loop {α β : Type} (a : α) (turn : α → Walk (Turn α β)) : Walk β := do
  iterate turn ((← tokenCount) + 1) a

end Walk

end StateScript
