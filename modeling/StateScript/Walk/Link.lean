import StateScript.Object
import StateScript.Walk.Code

/-! # Linking

  The symbols are numbered in preorder, the global scope first and the member scope after
  it. The bodies of the functions follow each other in the order of their symbols, and
  every placeholder in them is replaced: a symbol by its number, a target by the
  instruction it is bound to in the whole program.
-/

namespace StateScript.Walk

/-- Where everything goes in the linked unit. -/
structure Layout where
  /-- Ids in the order of the numbers. -/
  order : List Nat
  /-- The number of each id. -/
  numbers : Array Nat
  /-- The first instruction of each id that is a function with a body. -/
  entries : Array (Option Nat)
  code : List Instruction

/-- Functions without a body here: imported ones and methods. -/
def hasBody (f : Function) : Bool := !f.flags.imported && !f.flags.method

/-- The code of a symbol, if it is a function with a body. -/
def codeOf? (t : Table) (id : Nat) : Option (Array Instruction) := do
  let f ← (← t.get? id).kind.function?
  if hasBody f then some f.code else none

/-- The bodies of functions one after the other, with the place where each starts. -/
def layBodies (t : Table) : List Nat → Array (Option Nat) → Array Instruction →
    Array (Option Nat) × Array Instruction
  | [], entries, code => (entries, code)
  | id :: rest, entries, code =>
    match codeOf? t id with
    | some own => layBodies t rest (entries.setIfInBounds id (some code.size)) (code ++ own)
    | none => layBodies t rest entries code

/-- The layout with the symbols in a given order. -/
def Layout.ofOrder (t : Table) (order : List Nat) : Layout :=
  let numbers := order.zipIdx.foldl (fun (numbers : Array Nat) (id, number) =>
    numbers.setIfInBounds id number) (Array.replicate t.size 0)
  let (entries, code) := layBodies t order (Array.replicate t.size none) #[]
  { order, numbers, entries, code := code.toList }

def layout (t : Table) : Layout := .ofOrder t (t.preorder [globalScope, memberScope])

namespace Layout

def number (l : Layout) (id : Nat) : Nat := l.numbers.getD id 0

def start? (l : Layout) (id : Nat) : Option Nat := l.entries.getD id none

/-- The instruction of the whole program that a target is bound to. -/
def destination? (l : Layout) (t : Table) (target : Nat) : Option Nat :=
  match t.get? target with
  | some { kind := .target (some bound), scope := some owner, .. } =>
    (l.start? owner).map (· + bound)
  | _ => none

/-- Replaces a placeholder; fails with the id of a target that is not bound. -/
def relocate (l : Layout) (t : Table) : Operand → Except Nat Operand
  | .symbol id => .ok (.symbolIndex (l.number id))
  | .target id =>
    match l.destination? t id with
    | some place => .ok (.instruction place)
    | none => .error id
  | x => .ok x

def relocateCode (l : Layout) (t : Table) : Except Nat (List Instruction) :=
  l.code.mapM fun i => do return { i with operands := ← i.operands.mapM (l.relocate t) }

/-- A symbol of the linked unit. -/
def entryOf (l : Layout) (t : Table) (number id : Nat) : Option Entry :=
  (t.get? id).map fun x =>
    { index := number
      identifier := x.identifier
      scope := x.scope.map l.number
      children := x.children.map fun c => (l.number c : Int)
      kind :=
        match x.kind with
        | .function f =>
          .function { f with
            entryPoint := l.start? id
            code := if (l.start? id).isSome then #[] else f.code }
        | .target _ => .target (l.destination? t id)
        | kind => kind }

def symbols (l : Layout) (t : Table) : List Entry :=
  l.order.zipIdx.filterMap fun (id, number) => l.entryOf t number id

/-- The ids that come up while a unit is linked: those of its symbols with their owners and
    what they own, and those that its code refers to. -/
def mentioned (l : Layout) (t : Table) : List Nat :=
  l.order ++ l.order.flatMap t.children ++ l.order.filterMap
    (fun id => (t.get? id).bind (·.scope)) ++
    l.code.flatMap fun i => i.operands.filterMap Operand.placeholder?

end Layout

/-- Links a unit. -/
def link (defines : List Define) : Walk Object := do
  let table ← view (·.table)
  let l := layout table
  ensure fun s => s.knows (l.mentioned table ++ s.engineState.toList ++ s.editorState.toList)
  match l.relocateCode table with
  | .error id => fatal .internalError s!"jump target {id} was never bound"
  | .ok instructions =>
    view fun s =>
      { flags := s.flags
        internalVariables := s.internalVariables
        memorySize := s.memorySize
        globalScope := l.number globalScope
        memberScope := l.number memberScope
        engineState := s.engineState.map l.number
        editorState := s.editorState.map l.number
        defines
        symbols := l.symbols table
        files := s.files
        instructions }

end StateScript.Walk
