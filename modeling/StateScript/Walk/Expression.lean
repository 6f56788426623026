import StateScript.Walk.Operator

/-! # Expressions

  An expression pushes its value and gives its type. From loose to tight, the levels are
  `&& ||`, comparisons, `+ -`, all other binary operators, and `->`; within a level,
  operators group to the left.

  The rules are written over two parameters, `unary` and `expression`, which stand for
  what is nested inside. The recursion is tied at the end, with a budget that counts how
  deep the nesting may still be. Each level but every second takes a token, so a budget
  of twice the number of tokens is never used up.
-/

namespace StateScript.Walk

/-! ### Types -/

/-- A type, or an array of it. -/
def typeSpecifier : Walk ValueType := do
  match (← peek).bind Kind.primitive? with
  | none => unexpected "where a type was expected"
  | some primitive =>
    skip
    if (← check .openBracket) && (← peekAt 1) == some .closeBracket then
      skip
      skip
      return .array primitive
    else return .scalar primitive

/-- Whether a cast is ahead: a type between parentheses. -/
def castAhead : Walk Bool := do
  if (← peekAt 1).any (·.primitive?.isSome) then
    match ← peekAt 2 with
    | some .closeParen => return true
    | some .openBracket =>
      return (← peekAt 3) == some .closeBracket && (← peekAt 4) == some .closeParen
    | _ => return false
  else return false

/-! ### Calls -/

/-- A compiled argument: its type, and where its code ends. -/
structure Argument where
  type : ValueType
  stop : Nat
deriving DecidableEq

/-- An argument. -/
@[reducible] def argument (expression : Walk ValueType) : Walk Argument := do
  let type ← expression
  return { type, stop := ← here }

/-- Arguments between parentheses. -/
@[reducible] def arguments (expression : Walk ValueType) : Walk (List Argument) := do
  expectMark .openParen
  let args ← separatedUnless .closeParen (argument expression)
  expectMark .closeParen
  return args

/-- Converts an argument to the type of a parameter where its code ends. -/
@[reducible] def castArgument (arg : Argument) (wanted : ValueType) : Walk Unit := do
  if needsCast arg.type wanted then
    let pop ← opcodeFor arg.type .pop
    let cast ← opcodeFor wanted .cast
    let push ← opcodeFor wanted .push
    emitAt arg.stop pop [op1]
    emitAt (arg.stop + 1) cast [op1]
    emitAt (arg.stop + 2) push [op1]

/-- Converts arguments to the types of the parameters, the last first, so that the ends
    of the others stay where they are. -/
def castArguments (args : List Argument) (types : List ValueType) : Walk Unit :=
  (args.zip types).reverse.forM fun (arg, wanted) => castArgument arg wanted

/-- Whether arguments of some types can be passed for parameters of others. -/
def accepts (parameters arguments : List ValueType) : Bool :=
  parameters.length == arguments.length &&
    (parameters.zip arguments).all fun (parameter, argument) => argument.convertsTo parameter

/-- Pushes what a function has returned. -/
@[reducible] def pushResult (type : ValueType) : Walk Unit := do
  if !type.isVoid then emitFor type .push [result]

/-- A function that a call may mean. -/
structure Signature where
  id : Nat
  parameters : List ValueType
  returnType : ValueType

/-- The functions that a path may mean, with their types. -/
@[reducible] def signatures (path : List Token) : Walk (List Signature) := do
  let ids ← candidates path
  ensure (·.knows ids)
  view fun s => ids.filterMap fun id => do
    let f ← (← s.table.get? id).kind.function?
    return ⟨id, f.parameterTypes, f.returnType⟩

/-- The first function whose types are those of the arguments, or else the first that
    accepts them. -/
def chooseOverload (all : List Signature) (types : List ValueType) : Option Signature :=
  (all.find? fun s => s.parameters == types) <|> all.find? fun s => accepts s.parameters types

/-- Calls the function that suits the arguments, out of those that a path at `index`
    may mean. -/
def chosenCall (args : List Argument) (all : List Signature) (path : List Token) (index : Nat) :
    Walk ValueType := do
  let types := args.map (·.type)
  match chooseOverload all types with
  | none =>
    let listed := String.intercalate ", " (types.map ValueType.render)
    errorAt index .invalidCast s!"no overload of '{Token.dotted path}' accepts ({listed})"
  | some chosen =>
    castArguments args chosen.parameters
    markUsed chosen.id
    emit .call [.symbol chosen.id]
    pushResult chosen.returnType
    return chosen.returnType

/-- A call of the function that a path at `index` names. -/
def call (expression : Walk ValueType) (path : List Token) (index : Nat) : Walk ValueType := do
  let args ← arguments expression
  let all ← signatures path
  if ← emitting then
    if all.isEmpty then
      errorAt index .invalidFunction s!"no function named '{Token.dotted path}'"
    chosenCall args all path index
  else
    match all with
    | first :: _ => return first.returnType
    | [] => return .invalid

/-! ### Variables -/

@[reducible] def undeclared {α : Type} (index : Nat) (path : List Token) : Walk α :=
  errorAt index .undeclaredSymbol s!"'{Token.dotted path}' is not declared"

@[reducible] def notArray {α : Type} (index : Nat) (path : List Token) : Walk α :=
  errorAt index .invalidIndex s!"'{Token.dotted path}' is not an array"

/-- An index, pushed as an `int`. -/
@[reducible] def indexExpression (expression : Walk ValueType) : Walk Unit := do
  let index ← position
  let type ← expression
  if (← emitting) && (type.isArray || !type.primitive.isNumeric) then
    errorAt index .invalidIndex s!"index must be numeric, found {type.render}"
  coerce type .int

/-- An index up to its closing bracket. -/
@[reducible] def closedIndex (expression : Walk ValueType) : Walk Unit := do
  indexExpression expression
  expectMark .closeBracket

/-- The next token, if it is `++` or `--`. -/
def stepAhead : Walk (Option Kind) := do
  match ← peek with
  | some .increment => return some .increment
  | some .decrement => return some .decrement
  | _ => return none

/-- A use of a name that the first walk does not know yet: takes the same tokens as a
    known one would. -/
@[reducible] def unknownVariable (expression : Walk ValueType) : Walk ValueType := do
  if ← eat .openBracket then closedIndex expression
  if (← stepAhead).isSome then skip
  return .invalid

/-- The operand to read a variable by, which for a constant may be its literal. -/
def readingOperand (id : Nat) (literal : Option Token) (type : ValueType) : Walk Operand :=
  match literal with
  | some t => literalOperand t type
  | none => slot id

/-- Reads a variable that a path at `index` names: an element of it, or the variable
    before a step, or its value. -/
@[reducible] def knownVariable (expression : Walk ValueType) (path : List Token) (index id : Nat) :
    Walk ValueType := do
  markUsed id
  let v := (← symbol id).kind.var?
  let type := (v.map (·.type)).getD .invalid
  if ← eat .openBracket then
    closedIndex expression
    if (← emitting) && !type.isArray then notArray index path
    let push ← opcodeFor type.element .push
    emit (.pop (.numeric .int)) [op1]
    emit push [← indexedSlot id .op1]
    return type.element
  else
    match ← stepAhead with
    | some op =>
      skip
      let push ← opcodeFor type .push
      emit push [← slot id]
      stepVariable id op index
      return type
    | none =>
      let push ← opcodeFor type .push
      emit push [← readingOperand id (v.bind (·.literal)) type]
      return type

/-- A name: a call if arguments follow, or else a variable. -/
@[reducible] def nameExpression (expression : Walk ValueType) : Walk ValueType := do
  let index ← position
  let path ← qualifiedPath
  if ← check .openParen then call expression path index
  else
    match ← resolvePath path isVariable with
    | some id => knownVariable expression path index id
    | none =>
      if ← emitting then undeclared index path
      else unknownVariable expression

/-- A step in front of a variable: steps it and then pushes it. -/
@[reducible] def prefixStep (op : Kind) : Walk ValueType := do
  let index ← position
  let path ← qualifiedPath
  match ← resolvePath path isVariable with
  | some id =>
    markUsed id
    stepVariable id op index
    let type ← variableType id
    let push ← opcodeFor type .push
    emit push [← slot id]
    return type
  | none =>
    if ← emitting then undeclared index path
    else return .invalid

/-! ### Members -/

/-- A member that waits to be read or written. -/
structure Member where
  id : Nat
  type : ValueType
  isIndexed : Bool
deriving DecidableEq

/-- What follows an arrow: a member, or a method call that has been compiled. -/
inductive Accessed where
  | pending (member : Member)
  | called (type : ValueType)

/-- The member variable of a name and a type, which is made on its first use. -/
@[reducible] def memberVariable (name : String) (type : ValueType) : Walk Nat := do
  match ← findChild memberScope name fun x => x.kind.var?.any (·.type == type) with
  | some id => return id
  | none => addSymbol memberScope name (.var { kind := .member, type, storage := .stack 0 })

/-- The method of a name and a return type, which is made on its first use. -/
@[reducible] def memberFunction (name : String) (returnType : ValueType) : Walk Nat := do
  let isSame (x : Symbol) : Bool := x.kind.function?.any (·.returnType == returnType)
  match ← findChild memberScope name isSame with
  | some id => return id
  | none => addSymbol memberScope name (.function { returnType, flags := { method := true } })

/-- Fits arguments to a method. The first call fixes the types of the parameters. -/
def passToMethod (method : Nat) (args : List Argument) (name : String) (index : Nat) :
    Walk Unit := do
  let types := args.map (·.type)
  match (← symbol method).kind.function? with
  | some f =>
    if f.used then
      if !accepts f.parameterTypes types then
        errorAt index .invalidCast s!"arguments do not match earlier calls of method '{name}'"
      castArguments args f.parameterTypes
    else
      modifyFunction method fun f =>
        { f with parameterCount := types.length, parameterTypes := types, used := true }
  | none => return

/-- A method call at `index`. -/
@[reducible] def methodCall (expression : Walk ValueType) (name : String) (returnType : ValueType)
    (index : Nat) : Walk ValueType := do
  let method ← memberFunction name returnType
  let args ← arguments expression
  if ← emitting then passToMethod method args name index
  emit .callMethod [.symbol method]
  pushResult returnType
  return returnType

/-- Whether members can be reached through a value of this type. -/
def hasMembers (type : ValueType) : Bool := type.isArray || type.primitive == .object

/-- What follows the name of a member at `index`: arguments, an index, or nothing. -/
@[reducible] def access (expression : Walk ValueType) (name : String) (type : ValueType)
    (index : Nat) :
    Walk Accessed := do
  if ← check .openParen then return .called (← methodCall expression name type index)
  else
    let isIndexed ← eat .openBracket
    if isIndexed then closedIndex expression
    return .pending { id := ← memberVariable name type, type, isIndexed }

/-- An arrow with what follows it. -/
@[reducible] def accessor (expression : Walk ValueType) (object : ValueType) : Walk Accessed := do
  let index ← position
  expectMark .arrow
  expectMark .openParen
  let type ← typeSpecifier
  expectMark .closeParen
  let name ← expectIdentifier
  if (← emitting) && !hasMembers object then
    errorAt index .invalidOperator s!"'->' needs an object, found {object.render}"
  access expression name.text type index

/-- Reads a member of the object on the stack. -/
@[reducible] def readMember (m : Member) : Walk ValueType := do
  if m.isIndexed then
    emit (.pop (.numeric .int)) [op2]
    emit (.pop .object) [op1]
    emit .getMemberIndexed [op1, .symbol m.id, op2]
  else
    emit (.pop .object) [op1]
    emit .getMember [op1, .symbol m.id]
  emitFor m.type .push [op1]
  markUsed m.id
  return m.type

/-! ### Primary expressions -/

/-- An element of a new array, converted to the type of the array. -/
@[reducible] def arrayElement (expression : Walk ValueType) (element : ValueType) : Walk Unit := do
  let index ← position
  let type ← expression
  if (← emitting) && !type.convertsTo element then
    errorAt index .invalidCast s!"cannot store {type.render} in an array of {element.render}"
  coerce type element

/-- The elements of a new array between braces; how many there are. -/
@[reducible] def arrayElements (expression : Walk ValueType) (element : ValueType) : Walk Nat := do
  if ← eat .openBrace then
    let elements ← separatedUnless .closeBrace (arrayElement expression element)
    expectMark .closeBrace
    return elements.length
  else return 0

/-- The size of a new array of `count` elements, which is written at `index`. The walk
    goes back to it and returns; a missing size is the number of elements. -/
@[reducible] def arraySize (expression : Walk ValueType) (index count : Nat) : Walk Unit := do
  if (← tokenAt index).map Token.kind == some .closeBracket then
    emit (.push (.numeric .int)) [.int (Int32.ofNat count)]
  else
    let next ← position
    moveTo index
    closedIndex expression
    moveTo next

/-- Takes the size off the stack and pushes a new array of the `count` elements below. -/
@[reducible] def allocateArray (primitive : Primitive) (count : Nat) : Walk Unit := do
  let allocate ← opcodeFor (.scalar primitive) .allocate
  emit (.pop (.numeric .int)) [op1]
  emit allocate [op1, .int (Int32.ofNat count)]
  emit (.push .object) [op1]

/-- A new array, of which the element type is next. Its elements are pushed before its
    size, although the size is written first. -/
@[reducible] def arrayOf (expression : Walk ValueType) (primitive : Primitive) :
    Walk ValueType := do
  skip
  expectMark .openBracket
  let index ← position
  skipBalanced .openBracket .closeBracket
  let count ← arrayElements expression (.scalar primitive)
  arraySize expression index count
  allocateArray primitive count
  return .array primitive

/-- A new array. -/
def newArray (expression : Walk ValueType) : Walk ValueType := do
  skip
  match (← peek).bind Kind.primitive? with
  | none | some .void => unexpected "where an element type was expected"
  | some primitive => arrayOf expression primitive

/-- How many turns the innermost counted loop has made. -/
@[reducible] def indexer : Walk ValueType := do
  let index ← position
  skip
  match ← view (·.loops.findSome? (·.counter)) with
  | none => errorAt index .invalidIndexer "'indexer' is only available inside 'do (n)' loops"
  | some counter =>
    emit (.push (.numeric .int)) [← slot counter]
    return .int

/-- An expression that starts with what it is. -/
def primary (expression : Walk ValueType) : Walk ValueType := do
  match ← peek with
  | none => unexpectedEnd
  | some .nullWord =>
    skip
    emit .pushNull []
    return .null
  | some .kwNew => newArray expression
  | some .kwIndexer => indexer
  | some .openParen =>
    skip
    let type ← expression
    expectMark .closeParen
    return type
  | some .identifier => nameExpression expression
  | some kind =>
    if kind.isLiteral then literalExpression
    else errorHere .expectingExpression s!"expected an expression but found {kind.describe}"

/-! ### Levels -/

/-- An operand with the operators in front of it. -/
def unaryWith (unary expression : Walk ValueType) : Walk ValueType := do
  let index ← position
  let operator (op : Kind) : Walk ValueType := do
    skip
    unaryOperator op (← unary) index
  match ← peek with
  | some .minus =>
    if (← peekAt 1).any Kind.isNumericLiteral then literalExpression else operator .minus
  | some .plus => operator .plus
  | some .not => operator .not
  | some .tilde => operator .tilde
  | some .increment =>
    skip
    prefixStep .increment
  | some .decrement =>
    skip
    prefixStep .decrement
  | some .openParen =>
    if ← castAhead then
      skip
      let wanted ← typeSpecifier
      expectMark .closeParen
      castTo wanted (← unary) index
    else primary expression
  | _ => primary expression

/-- An operand with the arrows behind it. -/
def memberLevel (unary expression : Walk ValueType) : Walk ValueType := do
  loop (← unary) fun type => do
    if ← check .arrow then
      match ← accessor expression type with
      | .called type => return .again type
      | .pending m => return .again (← readMember m)
    else return .done type

/-- Operands of a tighter level, joined by the operators of this one. -/
def binaryLevel (operators : List Kind) (operand : Walk ValueType) : Walk ValueType := do
  loop (← operand) fun left => do
    match ← peek with
    | some op =>
      if operators.contains op then
        let index ← position
        skip
        let right ← operand
        return .again (← binary op left right index)
      else return .done left
    | none => return .done left

/-- All levels from the loosest on. -/
@[reducible] def expressionWith (unary expression : Walk ValueType) : Walk ValueType :=
  binaryLevel [.logicalAnd, .logicalOr] <|
  binaryLevel [.equal, .notEqual, .less, .greater, .lessEqual, .greaterEqual] <|
  binaryLevel [.plus, .minus] <|
  binaryLevel [.star, .slash, .percent, .caret, .shiftLeft, .shiftRight, .pipe, .ampersand] <|
  memberLevel unary expression

mutual

/-- Operands nested at most `n` deep. -/
def unaryUpTo : Nat → Walk ValueType
  | 0 => throw .broken
  | n + 1 => unaryWith (unaryUpTo n) (expressionUpTo n)

/-- Expressions nested at most `n` deep. -/
def expressionUpTo : Nat → Walk ValueType
  | 0 => throw .broken
  | n + 1 => expressionWith (unaryUpTo n) (expressionUpTo n)

end

/-- An operand with the operators in front of it. -/
def unary : Walk ValueType := do unaryUpTo (2 * (← tokenCount) + 2)

/-- An expression. -/
def expression : Walk ValueType := do expressionUpTo (2 * (← tokenCount) + 2)

/-! ### Places -/

/-- Whether the place ahead is reached through an arrow. -/
def arrowAhead (tokens : Array Token) (i : Nat) : Bool :=
  scanFrom tokens i 0 (fun _ => false) fun depth _ kind =>
    match kind with
    | .openParen | .openBracket => .again (depth + 1)
    | .closeParen => if 0 < depth then .again (depth - 1) else .done false
    | .closeBracket => .again (depth - 1)
    | .arrow => if depth = 0 then .done true else .again depth
    | .semicolon | .openBrace | .closeBrace | .increment | .decrement => .done false
    | kind => if depth = 0 && kind.isAssignment then .done false else .again depth

/-- A place that is reached through arrows. -/
def memberPlace : Walk Place := do
  loop (← unary) fun type => do
    let index ← position
    match ← accessor expression type with
    | .called type =>
      if ← check .arrow then return .again type
      else errorAt index .illegalAssignment "cannot assign to the result of a method call"
    | .pending m =>
      if ← check .arrow then return .again (← readMember m)
      else return .done (.member m.id m.type m.isIndexed)

/-- The place that a variable is, or an element of it, which a path at `index` names. -/
def placeOf (path : List Token) (index id : Nat) (isIndexed : Bool) : Walk Place := do
  let (type, isConstant) ← variableTraits id
  if ← emitting then
    if isConstant then
      errorAt index .illegalAssignment s!"cannot assign to constant '{Token.dotted path}'"
    if isIndexed && !type.isArray then notArray index path
  if isIndexed then return .element id type.element
  else return .plain id type

/-- A place that is a variable or an element of one. -/
@[reducible] def variablePlace : Walk Place := do
  let index ← position
  let path ← qualifiedPath
  let found ← resolvePath path isVariable
  let isIndexed ← eat .openBracket
  if isIndexed then closedIndex expression
  match found with
  | none =>
    if ← emitting then undeclared index path
    else return .unknown
  | some id => placeOf path index id isIndexed

/-- The left side of an assignment; pushes the index or the object that it needs. -/
def assignmentPlace : Walk Place := do
  let pos ← position
  if (← tokenCount) < pos then throw .broken
  if ← view fun s => arrowAhead s.tokens pos then memberPlace else variablePlace

end StateScript.Walk
