import StateScript.Object
import StateScript.Text.Layout

/-! # Listings

  An object file as text: a header of comments, then every function in the order of
  the program, one line per instruction with its number, a mark where a jump lands,
  the mnemonic in a column of its own, and the operands.
-/

namespace StateScript.Object

/-- Width of the column of mnemonics. -/
def mnemonicWidth : Nat := 20

/-- Texts are shown quoted and other symbols by their names; what names no symbol is
    shown as the operand itself. -/
def renderOperand (o : Object) (x : Operand) : String :=
  match x with
  | .symbolIndex (.ofNat i) =>
    match o.symbols[i]? with
    | some { kind := .text, identifier, .. } => Text.listed identifier
    | some { index := .ofNat own, .. } => o.qualifiedName own
    | some { index := .negSucc _, .. } => ""
    | none => x.render
  | _ => x.render

/-- The mnemonic and the operands of an instruction. -/
def renderInstruction (o : Object) (i : Instruction) : String :=
  if i.operands.isEmpty then i.opcode.mnemonic
  else Text.padRight mnemonicWidth i.opcode.mnemonic ++
    String.intercalate ", " (i.operands.map o.renderOperand)

/-- Instructions that a jump goes to. -/
def jumpDestinations (o : Object) : List Nat :=
  o.instructions.filterMap fun i =>
    if i.opcode.isJump then
      match i.operands.head? with
      | some (.instruction (.ofNat k)) => some k
      | _ => none
    else none

def headerLines (o : Object) : List String :=
  [s!"; flags 0x{Text.hexDigits o.flags.toBits}",
   s!"; {o.symbols.length} symbols, {o.instructions.length} instructions, " ++
     s!"{o.memorySize} memory slots"] ++
  (o.engineState.toList.map fun s => s!"; engine state {o.qualifiedName s}") ++
  (o.editorState.toList.map fun s => s!"; editor state {o.qualifiedName s}") ++
  (o.defines.map fun d => s!"; define {d.identifier} {d.value}")

/-- The line above and below the name of a function. -/
def rule : String := String.ofList (List.replicate 40 '═')

/-- A listed function: its entry point and its position among the symbols. -/
structure Body where
  entry : Nat
  index : Nat
deriving DecidableEq

/-- Order of functions in a listing. -/
def Body.le (a b : Body) : Bool := a.entry < b.entry || (a.entry == b.entry && a.index ≤ b.index)

/-- The functions of a program in the order of their entry points. Nothing if one of
    them gives a position that no symbol has. -/
def bodies? (o : Object) : Option (List Body) := do
  let bodies ← o.symbols.filterMapM fun e =>
    match e.kind.function?.bind (·.entryPoint), e.index with
    | none, _ => some none
    | some entry, .ofNat index =>
      if index < o.symbols.length then some (some ⟨entry, index⟩) else none
    | some _, .negSucc _ => none
  return bodies.mergeSort Body.le

/-- A line of a function's body; `k` is the number of the instruction. -/
def codeLine (o : Object) (destinations : List Nat) (k : Nat) (i : Instruction) : String :=
  let mark := if destinations.contains k then "►" else " "
  s!"{Text.zeroPadded 4 k} {mark} {o.renderInstruction i}"

/-- The lines of a function; none for a position that holds something else. -/
def bodyLines (o : Object) (destinations : List Nat) (b : Body) : List String :=
  match o.symbols[b.index]? with
  | some { kind := .function f, identifier, .. } =>
    let qualified := o.qualifiedName b.index
    let name := if qualified.isEmpty then identifier else qualified
    let word := if f.flags.event then "event" else "function"
    ["", rule,
     s!" {word} {name}  entry {b.entry}  frame {f.frameSize}  params {f.parameterCount}",
     rule] ++
    (o.functionBody b.index).mapIdx fun offset i => o.codeLine destinations (b.entry + offset) i
  | _ => []

/-- All lines of the listing. Nothing if a function has no position in the list. -/
def listing? (o : Object) : Option (List String) := do
  let bodies ← o.bodies?
  let destinations := o.jumpDestinations
  return o.headerLines ++ bodies.flatMap (o.bodyLines destinations)

/-- The listing as one text. -/
def decompile? (o : Object) : Option String :=
  o.listing?.map fun lines => String.join (lines.map (· ++ "\n"))

end StateScript.Object
