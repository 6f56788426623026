import StateScript.Walk.Declaration
import StateScript.Walk.Recovery

/-! # Statements

  Statements inside of functions, and the rule that tells all statements apart. Whatever
  holds other statements takes the rule for them as the parameter `inner`; the recursion
  is tied at the end, with a budget for the depth of nesting. Every nested statement
  starts further on than the one around it, so one level per token is enough.
-/

namespace StateScript.Walk

@[reducible] def requireFunction (what : String) : Walk Unit := do
  if !(← inFunction) then errorHere .invalidScope s!"{what} are only allowed inside functions"

/-! ### Assignments and steps -/

/-- What a statement is that starts with no word of its own. -/
inductive Form where
  | assignment
  | step
  | plain
deriving DecidableEq

/-- Looks ahead to the end of a statement: an operator of assignment outside of all
    parentheses makes it an assignment, and a step at its end makes it a step. -/
def statementForm (tokens : Array Token) (i : Nat) : Form :=
  let ended (last : Option Kind) : Form :=
    match last with
    | some .increment | some .decrement => .step
    | _ => .plain
  scanFrom tokens i (0, none) (fun (_, last) => ended last) fun (depth, last) _ kind =>
    match kind with
    | .openParen | .openBracket => .again (depth + 1, some kind)
    | .closeParen => if 0 < depth then .again (depth - 1, some kind) else .done (ended last)
    | .closeBracket => .again (depth - 1, some kind)
    | .semicolon | .openBrace | .closeBrace => .done (ended last)
    | kind =>
      if depth = 0 && kind.isAssignment then .done .assignment else .again (depth, some kind)

/-- The value of a compound assignment: what is there, combined with an expression. -/
@[reducible] def compoundValue (place : Place) (op : Kind) (index : Nat) : Walk ValueType := do
  let current ← loadPlace place
  let value ← expression
  binary op current value index

/-- The value that an operator of assignment at `index` gives a place. -/
def assignedValue (place : Place) (kind : Kind) (index : Nat) : Walk ValueType :=
  match kind.compoundOperator? with
  | some op => compoundValue place op index
  | none => expression

@[reducible] def assignment : Walk Unit := do
  let place ← assignmentPlace
  let index ← position
  match ← peek with
  | some kind =>
    if kind.isAssignment then
      skip
      let value ← assignedValue place kind index
      storePlace place value index
    else unexpected "where an assignment operator was expected"
  | none => unexpected "where an assignment operator was expected"

/-- The number one as an operand of a numeric type. -/
def one (type : ValueType) : Operand :=
  match type.primitive with
  | .byte => .byte 1
  | .short => .short 1
  | .long => .long 1
  | .float => .float 0x3F800000
  | .double => .double 0x3FF0000000000000
  | _ => .int 1

/-- Steps an element or a member: reads it, adds or subtracts one, and writes it. -/
@[reducible] def stepByOne (place : Place) (op : Kind) : Walk Unit := do
  let index := (← position) - 1
  let current ← loadPlace place
  emitFor current .push [one current]
  let value ← binary (if op = .increment then .plus else .minus) current current index
  storePlace place value index

/-- Steps a place for the effect alone. -/
def stepPlace (place : Place) (op : Kind) : Walk Unit := do
  let type := place.type
  if (← emitting) && !op.appliesTo type then invalidOperator (← position) op type
  match place with
  | .plain id type =>
    let opcode ← opcodeFor type (stepOperation op)
    emit opcode [← slot id]
  | .element _ _ | .member _ _ _ => stepByOne place op
  | .unknown => return

/-- A statement of a form. The value of an expression is thrown away. -/
def formStatement : Form → Walk Unit
  | .assignment => assignment
  | .step => do
    let place ← assignmentPlace
    let op ← advance
    stepPlace place op.kind
  | .plain => do
    let type ← expression
    if !type.isVoid then emit .popDestroy []

/-- An assignment, a step, or an expression; without its end. -/
@[reducible] def simpleStatement : Walk Unit := do
  match ← stepAhead with
  | some op =>
    skip
    stepPlace (← assignmentPlace) op
  | none =>
    let pos ← position
    if (← tokenCount) < pos then throw .broken
    formStatement (← view fun s => statementForm s.tokens pos)

/-! ### Blocks and conditions -/

@[reducible] def block (inner : Walk Unit) : Walk Unit := do
  requireFunction "blocks"
  skip
  inBlock (blockContents inner)

/-- There has to be another token. -/
@[reducible] def requireToken : Walk Unit := do
  if ← atEnd then unexpectedEnd

/-- The statement that another one controls. -/
@[reducible] def body (inner : Walk Unit) : Walk Unit := do
  requireToken
  inner

/-- Evaluates a condition and compares it with `false`: the outcome is `eq` if the
    condition does not hold. -/
@[reducible] def conditionExpression : Walk Unit := do
  let index ← position
  let type ← expression
  if (← emitting) && !type.convertsTo .bool then
    errorAt index .invalidCast s!"condition must be bool, found {type.render}"
  popInto type .bool .op1
  emit (.cmp .bool) [op1, .bool false]

/-- A condition between parentheses. -/
@[reducible] def condition : Walk Unit := do
  expectMark .openParen
  conditionExpression
  expectMark .closeParen

/-- What is done if a condition does not hold. -/
@[reducible] def elseBranch (inner : Walk Unit) (otherwise stop : Nat) : Walk Unit := do
  if ← eat .kwElse then
    jump .jump stop
    bind otherwise
    body inner
  else bind otherwise

@[reducible] def ifStatement (inner : Walk Unit) : Walk Unit := do
  requireFunction "if statements"
  let index ← position
  skip
  let otherwise ← target index .otherwise
  let stop ← target index .stop
  condition
  jump (.jumpIf .eq) otherwise
  body inner
  elseBranch inner otherwise stop
  bind stop

/-! ### Loops -/

/-- Runs what a loop or a switch encloses. -/
def inLoop (breakTarget : Nat) (continueTarget counter : Option Nat) (x : Walk Unit) :
    Walk Unit := do
  change fun s =>
    { s with loops := { breakTarget, continueTarget, counter, regions := s.regions } :: s.loops }
  protect (fun s => { s with loops := s.loops.tail }) x

def whileStatement (inner : Walk Unit) : Walk Unit := do
  requireFunction "while loops"
  let index ← position
  skip
  let start ← target index .start
  let stop ← target index .stop
  bind start
  condition
  jump (.jumpIf .eq) stop
  inLoop stop (some start) none (body inner)
  jump .jump start
  bind stop

/-- The number of turns between parentheses, which goes into the local `limit`. -/
@[reducible] def repeatCount (limit : Nat) : Walk Unit := do
  expectMark .openParen
  let index ← position
  let type ← expression
  if (← emitting) && !(type.primitive.isNumeric && !type.isArray && type.convertsTo .int) then
    errorAt index .invalidCast s!"repeat count must be numeric, found {type.render}"
  expectMark .closeParen
  let slot ← slot limit
  if type = .int then emit (.pop (.numeric .int)) [slot]
  else
    popInto type .int .op1
    emit (.mov (.numeric .int)) [slot, op1]

/-- A loop that makes as many turns as the local `limit` says and counts them in another
    local. -/
@[reducible] def countedLoop (inner : Walk Unit) (counter limit start resume stop : Nat) :
    Walk Unit := do
  let counterSlot ← slot counter
  let limitSlot ← slot limit
  emit (.mov (.numeric .int)) [counterSlot, .int 0]
  bind start
  emit (.cmp (.numeric .int)) [counterSlot, limitSlot]
  jump (.jumpIf .ge) stop
  inLoop stop (some resume) (some counter) (body inner)
  bind resume
  emit (.arithmetic .inc .int) [counterSlot]
  jump .jump start
  bind stop

/-- A counted loop, whose first word stands at `index`. -/
@[reducible] def repeatStatement (inner : Walk Unit) (index : Nat) : Walk Unit := do
  let counter ← internalLocal index .counter "$counter" .int
  let limit ← internalLocal index .limit "$limit" .int
  let start ← target index .start
  let resume ← target index .resume
  let stop ← target index .stop
  repeatCount limit
  countedLoop inner counter limit start resume stop

/-- The test behind the body of a loop, if there is one. -/
@[reducible] def loopTest (start : Nat) : Walk Unit := do
  if ← eat .kwWhile then
    condition
    jump (.jumpIf .ne) start
    expectMark .semicolon

/-- A loop at `index` that tests behind its body, or runs it once. -/
@[reducible] def bottomLoop (inner : Walk Unit) (index : Nat) : Walk Unit := do
  let start ← target index .start
  let resume ← target index .resume
  let stop ← target index .stop
  bind start
  inLoop stop (some resume) none (body inner)
  bind resume
  loopTest start
  bind stop

@[reducible] def doStatement (inner : Walk Unit) : Walk Unit := do
  requireFunction "do loops"
  let index ← position
  skip
  if ← check .openParen then repeatStatement inner index else bottomLoop inner index

/-- A simple statement, or nothing if the next token is `stop`. -/
@[reducible] def simpleUnless (stop : Kind) : Walk Unit := do
  if !(← check stop) then simpleStatement

/-- The first clause of a `for` loop with its semicolon. -/
@[reducible] def forStart (inner : Walk Unit) : Walk Unit := do
  if (← peek).any startsDeclaration then declaration inner
  else
    simpleUnless .semicolon
    expectMark .semicolon

/-- The second clause of a `for` loop, which need not be there. -/
@[reducible] def forCondition (stop : Nat) : Walk Unit := do
  if !(← check .semicolon) then
    conditionExpression
    jump (.jumpIf .eq) stop

/-- The clauses and the body of a `for` loop. The walk goes back to the last clause
    after the body, because its code comes there. -/
def forClauses (inner : Walk Unit) (start resume stop : Nat) : Walk Unit := do
  forStart inner
  bind start
  forCondition stop
  expectMark .semicolon
  let increment ← position
  skipBalanced .openParen .closeParen
  inLoop stop (some resume) none (body inner)
  bind resume
  let next ← position
  moveTo increment
  simpleUnless .closeParen
  expectMark .closeParen
  moveTo next
  jump .jump start
  bind stop

@[reducible] def forStatement (inner : Walk Unit) : Walk Unit := do
  requireFunction "for loops"
  let index ← position
  skip
  let start ← target index .start
  let resume ← target index .resume
  let stop ← target index .stop
  expectMark .openParen
  inBlock (forClauses inner start resume stop)

/-! ### Switches -/

/-- A label: a literal, or a constant that has one. -/
def caseLabel (type : ValueType) : Walk Operand := do
  match ← foldedLiteral? [.colon] with
  | some t => literalOperand t type
  | none =>
    let index ← position
    let path ← qualifiedPath
    match ← resolvePath path fun x => x.kind.var?.any (·.literal.isSome) with
    | some id =>
      markUsed id
      match (← symbol id).kind.var?.bind (·.literal) with
      | some t => literalOperand t type
      | none => return .int 0
    | none =>
      if ← emitting then
        errorAt index .invalidLiteral
          "case labels must be literals or constants with a literal value"
      else return .int 0

/-- What is known between two clauses: the test that the last clause goes on to, and the
    body of the default clause. -/
structure Clauses where
  test : Option Nat := none
  default : Option Nat := none

/-- The test of a `case`, which goes on to the next test if it fails. -/
@[reducible] def caseTest (value : Nat) (type : ValueType) (nextTest : Nat) : Walk Unit := do
  let label ← caseLabel type
  expectMark .colon
  let cmp ← opcodeFor type .cmp
  emit cmp [← slot value, label]
  jump (.jumpIf .ne) nextTest

/-- The head of a default clause at `index`, which is tested last. -/
@[reducible] def defaultTest (clauses : Clauses) (index nextTest : Nat) : Walk Unit := do
  if clauses.default.isSome then
    errorAt index .duplicateSymbol "switch already has a default clause"
  expectMark .colon
  jump .jump nextTest

def endsClause (kind : Kind) : Bool :=
  kind == .kwCase || kind == .kwDefault || kind == .closeBrace

/-- The word that starts a clause. -/
@[reducible] def clauseKind : Walk Kind := do
  let index ← position
  let kind := (← advance).kind
  if kind == .kwCase || kind == .kwDefault then return kind
  else
    moveTo index
    unexpected "in switch, expected 'case' or 'default'"

/-- The place of a test that is still to come. Control that gets there from above jumps
    over the test. -/
def pendingTest (test : Option Nat) (next : Nat) : Walk Unit :=
  match test with
  | some test => do
    jump .jump next
    bind test
  | none => return

/-- The test of a clause at `index`. -/
@[reducible] def clauseTest (kind : Kind) (value : Nat) (type : ValueType) (clauses : Clauses)
    (index nextTest : Nat) : Walk Unit :=
  if kind == .kwCase then caseTest value type nextTest else defaultTest clauses index nextTest

/-- A clause. Control that falls off the clause before jumps over the test. -/
@[reducible] def switchClause (inner : Walk Unit) (value : Nat) (type : ValueType)
    (clauses : Clauses) :
    Walk Clauses := do
  let index ← position
  let kind ← clauseKind
  let start ← target index .body
  let nextTest ← target index .test
  pendingTest clauses.test start
  clauseTest kind value type clauses index nextTest
  bind start
  statementsUntil endsClause inner
  return { test := some nextTest
           default := if kind == .kwCase then clauses.default else some start }

/-- Where control goes if no test succeeds. -/
def defaultJump (start : Option Nat) : Walk Unit :=
  match start with
  | some start => jump .jump start
  | none => return

/-- The clauses up to the closing brace. -/
@[reducible] def clausesUntilBrace (inner : Walk Unit) (value : Nat) (type : ValueType) :
    Walk Clauses :=
  loop {} fun clauses => do
    if ← check .closeBrace then return .done clauses
    else return .again (← switchClause inner value type clauses)

/-- The clauses up to and including the closing brace. If no test succeeds, control goes
    to the default clause or else to the end. -/
@[reducible] def switchClauses (inner : Walk Unit) (value : Nat) (type : ValueType) (stop : Nat) :
    Walk Unit := do
  let clauses ← clausesUntilBrace inner value type
  skip
  pendingTest clauses.test stop
  defaultJump clauses.default
  bind stop

/-- The value between parentheses that a switch tests; it has to be one that can be
    compared. -/
@[reducible] def switchedValue : Walk ValueType := do
  expectMark .openParen
  let index ← position
  let type ← expression
  expectMark .closeParen
  if (← emitting) && (type.opcode? .cmp).isNone then
    errorAt index .invalidOperator s!"cannot switch on a value of type {type.render}"
  return type

/-- Pops the value that a switch tests into its local, whose type the second walk alone
    knows for sure. -/
@[reducible] def storeSwitched (value : Nat) (type : ValueType) : Walk Unit := do
  if ← emitting then
    modifyVariable value fun v => { v with type }
    let pop ← opcodeFor type .pop
    emit pop [← slot value]

@[reducible] def switchStatement (inner : Walk Unit) : Walk Unit := do
  requireFunction "switch statements"
  let index ← position
  skip
  let stop ← target index .stop
  let type ← switchedValue
  let value ← internalLocal index .value "$switch" type
  storeSwitched value type
  expectMark .openBrace
  inLoop stop none none (switchClauses inner value type stop)

/-! ### Jumps -/

/-- Closes the regions that a jump to a place with the regions `outer` leaves. -/
@[reducible] def leaveRegions (outer : Regions) : Walk Unit := do
  let regions ← view (·.regions)
  if regions.atom.isSome && regions.atom != outer.atom then emit .exitAtom []
  if regions.lock.isSome && regions.lock != outer.lock then emit .exitLock []

/-- What the current function returns. -/
def State.returnType (s : State) : ValueType :=
  match (s.table.get? s.function).bind (·.kind.function?) with
  | some f => f.returnType
  | none => .void

@[reducible] def returnType : Walk ValueType := do
  ensure fun s => s.knows [s.function]
  view State.returnType

/-- The value behind a `return` at `index`, if there is one. -/
@[reducible] def returnValue (index : Nat) : Walk Unit := do
  let wanted ← returnType
  if ← check .semicolon then
    if (← emitting) && !wanted.isVoid then
      errorAt index .invalidReturn s!"function must return a value of type {wanted.render}"
  else
    let value ← expression
    if (← emitting) && wanted.isVoid then
      errorAt index .invalidReturn "void function cannot return a value"
    store value wanted result index

@[reducible] def returnStatement : Walk Unit := do
  requireFunction "return statements"
  let index ← position
  skip
  returnValue index
  expectMark .semicolon
  leaveRegions {}
  emit .ret []

/-- A number of loops, which has to be there between parentheses and is one otherwise. -/
def depthNumber (isParenthesised : Bool) : Walk Nat := do
  match ← tokenAt (← position) with
  | some ⟨.integerLiteral, text, _, _, _⟩ =>
    match Number.decimalWord? text.toList with
    | some (n + 1) =>
      skip
      return n + 1
    | _ => errorHere .invalidLiteral "loop depth must be a positive integer"
  | _ => if isParenthesised then unexpected "where a loop depth was expected" else return 1

/-- How many loops a `break` or `continue` leaves: a number with or without parentheses,
    or else one. -/
@[reducible] def jumpDepth : Walk Nat := do
  let isParenthesised ← eat .openParen
  let depth ← depthNumber isParenthesised
  if isParenthesised then expectMark .closeParen
  return depth

@[reducible] def breakStatement : Walk Unit := do
  requireFunction "break statements"
  let index ← position
  skip
  let depth ← jumpDepth
  ensure fun _ => depth != 0
  match ← view (·.loops[depth - 1]?) with
  | none =>
    errorAt index .invalidBreak s!"break {depth} is not inside {depth} loop or switch"
  | some frame =>
    expectMark .semicolon
    leaveRegions frame.regions
    jump .jump frame.breakTarget

def continueStatement : Walk Unit := do
  requireFunction "continue statements"
  let index ← position
  skip
  let depth ← jumpDepth
  ensure fun _ => depth != 0
  let targets ← view (·.loops.filterMap fun f => f.continueTarget.map fun t => (t, f.regions))
  match targets[depth - 1]? with
  | none => errorAt index .invalidContinue s!"continue {depth} is not inside {depth} loop"
  | some (next, regions) =>
    expectMark .semicolon
    leaveRegions regions
    jump .jump next

/-- Makes or finds the target of a label at `index` and binds it. -/
@[reducible] def defineLabel (index function : Nat) (name : String) : Walk Unit := do
  bind (← keyed index .label (addSymbol function name (.target none)))

/-- Places the label of a name at `index`. A second label of a name is refused, but the
    statement after it stands. -/
@[reducible] def placeLabel (index : Nat) (name : String) : Walk Unit := do
  let function ← view (·.function)
  if ← emitting then
    if !(← isRejected index) then defineLabel index function name
  else if (← findChild function name (·.kind.isTarget)).isSome then
    refuse index .duplicateSymbol s!"label '{name}' is already defined in this function"
  else defineLabel index function name

def labelStatement : Walk Unit := do
  requireFunction "labels"
  let index ← position
  let name ← advance
  skip
  placeLabel index name.text

/-- The regions that are open at a label; a target that is no label counts as outside of
    all regions. -/
def State.regionsAt (s : State) (label : Nat) : Regions :=
  match s.declared.find? fun d => d.role == .label && d.symbol == label with
  | some d => d.regions
  | none => {}

/-- Whether a jump to a place enters a region: one that is open there and not here. -/
def enters (there here : Option Nat) : Bool := there.isSome && there != here

@[reducible] def gotoStatement : Walk Unit := do
  requireFunction "goto statements"
  skip
  let index ← position
  let label ← expectIdentifier
  let function ← view (·.function)
  match ← findChild function label.text (·.kind.isTarget) with
  | none =>
    if ← emitting then
      errorAt index .invalidLabel s!"no label named '{label.text}' in this function"
    else expectMark .semicolon
  | some id =>
    let regions ← view (·.regionsAt id)
    let current ← view (·.regions)
    if (← emitting) && (enters regions.lock current.lock || enters regions.atom current.atom) then
      errorAt index .invalidLabel
        s!"goto cannot jump into the lock or atom region holding '{label.text}'"
    expectMark .semicolon
    leaveRegions regions
    jump .jump id

@[reducible] def gotoStateStatement : Walk Unit := do
  requireFunction "gotostate statements"
  skip
  let index ← position
  let path ← qualifiedPath
  match ← resolvePath path (·.kind.isState) with
  | some id => emit .gotoState [.symbol id]
  | none =>
    if ← emitting then errorAt index .invalidState s!"no state named '{Token.dotted path}'"
  expectMark .semicolon

/-! ### Regions and breakpoints -/

/-- The two kinds of exclusive regions. -/
inductive Exclusion where
  | lock
  | atom
deriving DecidableEq

namespace Exclusion

def word : Exclusion → String
  | .lock => "lock"
  | .atom => "atom"

def code : Exclusion → Code
  | .lock => .nestedLock
  | .atom => .nestedAtom

def enter : Exclusion → Opcode
  | .lock => .enterLock
  | .atom => .enterAtom

def exit : Exclusion → Opcode
  | .lock => .exitLock
  | .atom => .exitAtom

/-- The token that opened the region, if it is open. -/
def opened (e : Exclusion) (r : Regions) : Option Nat :=
  match e with
  | .lock => r.lock
  | .atom => r.atom

/-- The regions with this one opened by a token, or closed. -/
def set (e : Exclusion) (r : Regions) (token : Option Nat) : Regions :=
  match e with
  | .lock => { r with lock := token }
  | .atom => { r with atom := token }

end Exclusion

/-- Runs what stands inside a region that the token at `index` opens. -/
def inRegion (e : Exclusion) (index : Nat) (x : Walk Unit) : Walk Unit := do
  let regions ← view (·.regions)
  change fun s => { s with regions := e.set s.regions (some index) }
  protect (fun s => { s with regions }) x

/-- A region of a kind cannot be opened at `index` inside another of the kind. -/
@[reducible] def requireClosed (e : Exclusion) (index : Nat) : Walk Unit := do
  if (← view fun s => e.opened s.regions).isSome then
    errorAt index e.code s!"'{e.word}' regions cannot be nested"

@[reducible] def exclusiveStatement (inner : Walk Unit) (e : Exclusion) : Walk Unit := do
  requireFunction s!"{e.word} regions"
  let index ← position
  skip
  requireClosed e index
  emit e.enter []
  inRegion e index (body inner)
  emit e.exit []

/-- Breakpoints are there in debug builds only. -/
@[reducible] def breakpointStatement : Walk Unit := do
  requireFunction "breakpoints"
  let isDebug ← view (·.flags.debug)
  expectMark .kwBreakpoint
  expectMark .semicolon
  if isDebug then emit .breakpoint []

/-! ### All statements -/

/-- A statement that starts with no word of its own. -/
@[reducible] def plainStatement : Walk Unit := do
  requireFunction "statements"
  simpleStatement
  expectMark .semicolon

/-- A statement, by the kind of its first token. -/
def statementWith (inner : Walk Unit) : Walk Unit := do
  match ← peek with
  | none => return
  | some .semicolon => skip
  | some .openBrace => block inner
  | some .openBracket => metadataBlock
  | some .kwState => stateDeclaration inner
  | some .kwEnum => enumerationDeclaration
  | some .kwNamespace => namespaceDeclaration inner
  | some .kwIf => ifStatement inner
  | some .kwWhile => whileStatement inner
  | some .kwDo => doStatement inner
  | some .kwFor => forStatement inner
  | some .kwSwitch => switchStatement inner
  | some .kwReturn => returnStatement
  | some .kwBreak => breakStatement
  | some .kwContinue => continueStatement
  | some .kwGoto => gotoStatement
  | some .kwGotoState => gotoStateStatement
  | some .kwLock => exclusiveStatement inner .lock
  | some .kwAtom => exclusiveStatement inner .atom
  | some .kwBreakpoint => breakpointStatement
  | some .kwCase | some .kwDefault | some .kwElse => unexpected "outside its statement"
  | some .identifier =>
    if (← peekAt 1) == some .colon then labelStatement else plainStatement
  | some kind => if startsDeclaration kind then declaration inner else plainStatement

/-- Statements nested at most `n` deep. -/
def statementUpTo : Nat → Walk Unit
  | 0 => throw .broken
  | n + 1 => statementWith (guarded (statementUpTo n))

/-- A statement that may be abandoned. -/
def statement : Walk Unit := do guarded (statementUpTo ((← tokenCount) + 1))

end StateScript.Walk
