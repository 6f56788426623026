import StateScript.Walk.Expression
import StateScript.Walk.Frame

/-! # Declarations

  Variables, functions, states, enumerations, namespaces and metadata. What has a body
  takes the rule for the statements in it as the parameter `inner`.

  Checks on a declaration are made by the first walk. A refused declaration has no symbol,
  and so the second walk skips it without another report.
-/

namespace StateScript.Walk

/-! ### Modifiers -/

/-- What is written in front of a declaration. -/
structure Modifiers where
  isStatic : Bool := false
  isConst : Bool := false
  isProperty : Bool := false
  access : Option Access := none
  flags : FunctionFlags := {}
deriving DecidableEq

namespace Modifiers

/-- The modifiers with one more word. Nothing if the word is no modifier; the second
    part says whether it repeats an earlier one. -/
def add? (m : Modifiers) : Kind → Option (Modifiers × Bool)
  | .kwStatic => some ({ m with isStatic := true }, m.isStatic)
  | .kwConst => some ({ m with isConst := true }, m.isConst)
  | .kwProperty => some ({ m with isProperty := true }, m.isProperty)
  | .kwPublic => some ({ m with access := some .everyone }, m.access.isSome)
  | .kwPrivate => some ({ m with access := some .owner }, m.access.isSome)
  | .kwProtected => some ({ m with access := some .heirs }, m.access.isSome)
  | .kwThread => some ({ m with flags.thread := true }, m.flags.thread)
  | .kwEvent => some ({ m with flags.event := true }, m.flags.event)
  | .kwConsole => some ({ m with flags.console := true }, m.flags.console)
  | .kwImport => some ({ m with flags.imported := true }, m.flags.imported)
  | .kwExport => some ({ m with flags.exported := true }, m.flags.exported)
  | _ => none

def isModifier (kind : Kind) : Bool := (add? {} kind).isSome

end Modifiers

/-- Whether a kind can start a declaration of a variable or a function. -/
def startsDeclaration (kind : Kind) : Bool := Modifiers.isModifier kind || kind.primitive?.isSome

/-- Takes all modifiers. -/
def modifiers : Walk Modifiers :=
  loop {} fun m => do
    match ← peek with
    | none => return .done m
    | some kind =>
      match m.add? kind with
      | none => return .done m
      | some (m, isRepeated) =>
        let index ← position
        skip
        if isRepeated then
          reject index .invalidFlags s!"modifier {kind.describe} conflicts with an earlier one"
        else return .again m

/-! ### Variables -/

/-- What a variable with these modifiers is. -/
def variableKind (m : Modifiers) (inFunction : Bool) : VariableKind :=
  if m.isConst then .constant
  else if inFunction && !m.isStatic then .local
  else .global

/-- Whether a name is taken where a variable is declared. In a function these are the
    names of its innermost block; the outermost block shares them with the parameters. -/
def isTaken (name : String) : Walk Bool := do
  if ← inFunction then
    let function ← view (·.function)
    ensure fun s => s.knows (s.blocks.headD [])
    let inBlock ← view fun s => (s.blocks.headD []).any (s.table.isMatch name fun _ => true)
    let outermost ← view (·.blocks.length == 1)
    let parameter ← findChild function name fun x => x.kind.var?.any (·.kind == .parameter)
    return inBlock || (outermost && parameter.isSome)
  else
    let scope ← view (·.scope)
    return (← findChild scope name isExclusive).isSome

@[reducible] def alreadyDeclared {α : Type} (index : Nat) (name : String) : Walk α :=
  reject index .duplicateSymbol s!"'{name}' is already declared in this scope"

@[reducible] def checkVariable (m : Modifiers) (type : ValueType) (name : String) (index : Nat) :
    Walk Unit := do
  if type.primitive == .void then
    reject index .invalidCast s!"variable '{name}' cannot be void"
  if (← inFunction) && (m.isProperty || m.access.isSome) then
    reject index .invalidFlags "access and property modifiers are not allowed inside functions"
  if ← isTaken name then alreadyDeclared index name

/-- Storage for a new variable. -/
@[reducible] def allocate (kind : VariableKind) : Walk Storage := do
  if kind.usesMemory then return .memory (← allocateMemory)
  else return .stack (← allocateLocal)

/-- Gives a constant its literal, which then stands in for it. The second walk checks
    that the literal fits. -/
@[reducible] def foldConstant (id : Nat) (t : Token) (type : ValueType) (index : Nat) :
    Walk Unit := do
  if ← emitting then
    let own := t.kind.literalType
    if !own.convertsTo type then
      errorAt index .invalidCast s!"cannot initialise {type.render} with a {own.render} literal"
    let _ ← literalOperand t type
  else modifyVariable id fun v => { v with literal := some t }

/-- An initial value. -/
@[reducible] def initializer (id : Nat) : Walk Unit := do storeVariable id (← expression)

/-- An initial value that is computed once, before any function runs. -/
def globalInitializer (id : Nat) : Walk Unit := do
  let function ← view (·.function)
  change fun s => { s with function := globalScope }
  protect (fun s => { s with function }) (initializer id)

/-- Makes a variable. -/
@[reducible] def createVariable (m : Modifiers) (type : ValueType) (name : String) (isInner : Bool)
    (owner : Nat) : Walk Nat := do
  let kind := variableKind m isInner
  let storage ← allocate kind
  let id ← addSymbol owner name (.var
    { kind, type, isConstant := m.isConst, isProperty := m.isProperty, storage,
      access := m.access.getD .everyone })
  attachMetadata id
  return id

/-- Makes or finds the variable of a name at `index`. -/
@[reducible] def declareVariable (m : Modifiers) (type : ValueType) (name : String) (index : Nat)
    (isInner : Bool) : Walk Nat := do
  declaring (checkVariable m type name index)
  let owner ← view fun s => if isInner then s.function else s.scope
  keyed index .variable (createVariable m type name isInner owner)

/-- The initial value of a constant that has no literal, or of a variable. -/
@[reducible] def computedValue (m : Modifiers) (id : Nat) (isInner : Bool) : Walk Unit :=
  if (variableKind m isInner).usesMemory && isInner then globalInitializer id else initializer id

/-- The literal that is the whole value of a constant, if it is one. -/
@[reducible] def constantLiteral? (m : Modifiers) : Walk (Option Token) :=
  if m.isConst then foldedLiteral? [.semicolon, .comma] else return none

/-- The initial value of a variable, behind its equals sign. -/
@[reducible] def initialValue (m : Modifiers) (type : ValueType) (id : Nat) (isInner : Bool) :
    Walk Unit := do
  let start ← position
  match ← constantLiteral? m with
  | some t => foldConstant id t type start
  | none => computedValue m id isInner

/-- The value of a variable whose name at `index` has been taken. A constant needs one. -/
@[reducible] def variableValue (m : Modifiers) (type : ValueType) (name : String) (index id : Nat)
    (isInner : Bool) : Walk Unit := do
  if ← eat .assign then initialValue m type id isInner
  else if m.isConst then
    errorAt index .illegalAssignment s!"constant '{name}' needs an initial value"

/-- A variable whose name has been taken, with its initial value. -/
@[reducible] def variableDeclaration (m : Modifiers) (type : ValueType) (name : Token)
    (index : Nat) :
    Walk Unit := do
  let isInner ← inFunction
  let id ← declareVariable m type name.text index isInner
  makeVisibleIf isInner id
  variableValue m type name.text index id isInner

/-- Variables are not modified like functions. -/
@[reducible] def checkVariableFlags (m : Modifiers) (index : Nat) : Walk Unit := do
  if m.flags != {} then
    reject index .invalidFlags "function modifiers cannot be applied to variables"

/-- Further variables of one type, each after a comma. -/
@[reducible] def moreVariables (m : Modifiers) (type : ValueType) : Walk Unit :=
  loop () fun _ => do
    if ← eat .comma then
      let index ← position
      variableDeclaration m type (← expectIdentifier) index
      return .again ()
    else return .done ()

/-- Variables of one type, of which the first name has been taken. -/
@[reducible] def variableDeclarations (m : Modifiers) (type : ValueType) (name : Token)
    (index : Nat) :
    Walk Unit := do
  checkVariableFlags m index
  variableDeclaration m type name index
  moreVariables m type
  expectMark .semicolon

/-! ### Functions -/

/-- A parameter as it is written, with the token of its name. -/
structure Parameter where
  type : ValueType
  name : Token
  index : Nat
deriving DecidableEq

@[reducible] def parameter : Walk Parameter := do
  let type ← typeSpecifier
  let index ← position
  return { type, name := ← expectIdentifier, index }

@[reducible] def parameters : Walk (List Parameter) := do
  expectMark .openParen
  let all ← separatedUnless .closeParen parameter
  expectMark .closeParen
  return all

/-- What is wrong with a list of parameters; `earlier` are the names in front of it. -/
def parameterFault? (earlier : List String) : List Parameter → Option (Code × String)
  | [] => none
  | p :: rest =>
    let name := p.name.text
    if p.type.primitive == .void then
      some (.invalidParameter, s!"parameter '{name}' cannot be void")
    else if earlier.contains name then
      some (.duplicateSymbol, s!"parameter '{name}' is declared twice")
    else parameterFault? (name :: earlier) rest

/-- What is wrong with a function apart from its name being taken. -/
def functionFault? (m : Modifiers) (returnType : ValueType) (name : String)
    (all : List Parameter) (inFunction inState : Bool) : Option (Code × String) :=
  if inFunction then some (.invalidScope, s!"function '{name}' cannot be nested")
  else if inState && !m.flags.event then
    some (.invalidScope,
      s!"only event handlers can be declared inside a state, '{name}' is not one")
  else if !inState && m.flags.event then
    some (.invalidFlags, s!"event handler '{name}' must be declared inside a state")
  else if m.isStatic || m.isConst || m.isProperty then
    some (.invalidFlags, "static, const and property do not apply to functions")
  else if m.flags.imported && m.flags.exported then
    some (.invalidFlags, s!"function '{name}' cannot be both imported and exported")
  else if m.flags.thread && !returnType.isVoid then
    some (.invalidReturn, s!"thread function '{name}' cannot return a value")
  else if m.flags.console && !returnType.isVoid then
    some (.invalidReturn, s!"console command '{name}' cannot return a value")
  else
    match if m.flags.console then all.find? (!·.type.isConsoleParameter) else none with
    | some p =>
      some (.invalidParameter, s!"console command parameter '{p.name.text}' must be bool, " ++
        s!"int, float or string, not {p.type.render}")
    | none => parameterFault? [] all

@[reducible] def inState : Walk Bool := do return (← symbol (← view (·.scope))).kind.isState

def checkFunction (m : Modifiers) (returnType : ValueType) (name : String) (index : Nat)
    (all : List Parameter) : Walk Unit := do
  match functionFault? m returnType name all (← inFunction) (← inState) with
  | some (code, message) => reject index code message
  | none =>
    let scope ← view (·.scope)
    let types := all.map (·.type)
    let same ← findChild scope name fun x => x.kind.function?.any (·.parameterTypes == types)
    if same.isSome then
      reject index .duplicateSymbol s!"function '{name}' with these parameters is already declared"

/-- Statements until one of the given kinds is next. -/
@[reducible] def statementsUntil (stops : Kind → Bool) (inner : Walk Unit) : Walk Unit :=
  loop () fun _ => do
    match ← peek with
    | none => unexpectedEnd
    | some kind =>
      if stops kind then return .done ()
      else
        inner
        return .again ()

/-- Statements up to and including the closing brace. -/
@[reducible] def blockContents (inner : Walk Unit) : Walk Unit := do
  statementsUntil (· == .closeBrace) inner
  skip

/-- Runs what stands inside a scope. -/
def inScope (id : Nat) (x : Walk Unit) : Walk Unit := do
  let scope ← view (·.scope)
  change fun s => { s with scope := id }
  protect (fun s => { s with scope }) x

/-- Runs what stands inside a block. -/
def inBlock (x : Walk Unit) : Walk Unit := do
  change fun s => { s with blocks := [] :: s.blocks }
  protect (fun s => { s with blocks := s.blocks.tail }) x

/-- Runs what stands inside a function. -/
def inFunctionOf (id : Nat) (x : Walk Unit) : Walk Unit := do
  let function ← view (·.function)
  change fun s => { s with function := id, localCount := 0 }
  protect (fun s => { s with function }) (inScope id (inBlock x))

/-- What is left to do at the end of a function. -/
def finishFunction (id : Nat) : Walk Unit := do
  if ← emitting then checkUnused id else finishFrame id

/-- What stands between the braces of a function. Control that reaches its end returns. -/
@[reducible] def functionContents (inner : Walk Unit) (id : Nat) : Walk Unit := do
  blockContents inner
  emit .ret []
  finishFunction id

/-- The body of a function. -/
@[reducible] def functionBody (inner : Walk Unit) (id : Nat) : Walk Unit := do
  expectMark .openBrace
  inFunctionOf id (functionContents inner id)

/-- Makes or finds a parameter of a function. -/
@[reducible] def declareParameter (function : Nat) (p : Parameter) (ordinal : Nat) : Walk Unit := do
  let _ ← keyed p.index .parameter (addSymbol function p.name.text (.var
    { kind := .parameter, type := p.type, storage := .stack ordinal }))

/-- The role of a function: whether it has a body. -/
def functionRole (m : Modifiers) : Role := if m.flags.imported then .imported else .function

/-- Makes or finds the function of a name at `index`. -/
@[reducible] def declareFunction (m : Modifiers) (returnType : ValueType) (name : String)
    (index : Nat)
    (all : List Parameter) : Walk Nat := do
  declaring (checkFunction m returnType name index all)
  let scope ← view (·.scope)
  keyed index (functionRole m) do
    let id ← addSymbol scope name (.function
      { parameterCount := all.length, parameterTypes := all.map (·.type), returnType,
        flags := m.flags, access := m.access.getD .everyone })
    attachMetadata id
    return id

/-- Makes or finds the parameters of a function. -/
@[reducible] def declareParameters (function : Nat) (all : List Parameter) : Walk Unit :=
  (all.zipIdx).forM fun x => declareParameter function x.1 x.2

/-- The end of a function that has no body here. -/
@[reducible] def withoutBody (name : String) : Walk Unit := do
  if ← check .openBrace then
    errorHere .unexpectedToken s!"imported function '{name}' cannot have a body"
  else expectMark .semicolon

/-- A function whose name has been taken. -/
@[reducible] def functionDeclaration (inner : Walk Unit) (m : Modifiers) (returnType : ValueType)
    (name : Token)
    (index : Nat) : Walk Unit := do
  let all ← parameters
  let id ← declareFunction m returnType name.text index all
  declareParameters id all
  if m.flags.imported then withoutBody name.text else functionBody inner id

/-- A variable or a function, told apart by what follows the name. -/
def declaration (inner : Walk Unit) : Walk Unit := do
  let m ← modifiers
  let type ← typeSpecifier
  let index ← position
  let name ← expectIdentifier
  if ← check .openParen then functionDeclaration inner m type name index
  else variableDeclarations m type name index

/-! ### States -/

/-- Whether states and namespaces may be declared here. -/
@[reducible] def atNamespaceLevel : Walk Bool := do
  let scope ← view (·.scope)
  let isSpace := (← symbol scope).kind.isSpace
  return !(← inFunction) && (scope == globalScope || isSpace)

/-- Refuses a second default state. -/
def checkDefault (isClaimed : Bool) (current : Option Nat) (what : String) (index : Nat) :
    Walk Unit := do
  match isClaimed, current with
  | true, some previous =>
    let name := (← symbol previous).identifier
    reject index .duplicateDefaultState s!"'{name}' is already the default {what} state"
  | _, _ => return

@[reducible] def checkState (engine editor : Bool) (name : String) (index : Nat) : Walk Unit := do
  if !(← atNamespaceLevel) then
    reject index .invalidScope "states can only be declared at global or namespace scope"
  let scope ← view (·.scope)
  if (← findChild scope name (·.kind.isState)).isSome then
    reject index .duplicateSymbol s!"state '{name}' is already declared"
  checkDefault engine (← view (·.engineState)) "engine" index
  checkDefault editor (← view (·.editorState)) "editor" index

/-- The words that make a state a default: for the engine, and for the editor. -/
@[reducible] def defaultWords : Walk (Bool × Bool) :=
  loop (false, false) fun (engine, editor) => do
    if ← eat .kwEngine then return .again (true, editor)
    else if ← eat .kwEditor then return .again (engine, true)
    else return .done (engine, editor)

/-- Gives a new state its metadata, and makes it the default where it claims that. -/
def introduceState (engine editor : Bool) (id : Nat) : Walk Unit := do
  attachMetadata id
  change fun s =>
    { s with
      engineState := if engine then some id else s.engineState
      editorState := if editor then some id else s.editorState }

/-- Makes or finds the state of a name at `index`. -/
@[reducible] def declareState (engine editor : Bool) (name : String) (index : Nat) : Walk Nat := do
  declaring (checkState engine editor name index)
  let scope ← view (·.scope)
  keyed index .state do
    let id ← addSymbol scope name (.state engine editor)
    introduceState engine editor id
    return id

@[reducible] def stateDeclaration (inner : Walk Unit) : Walk Unit := do
  skip
  let isDefault ← defaultWords
  let index ← position
  let name ← expectIdentifier
  let id ← declareState isDefault.1 isDefault.2 name.text index
  expectMark .openBrace
  inScope id (blockContents inner)

/-! ### Enumerations -/

/-- The value of a member without an initial value: a bit of its own. -/
def automaticValue (member : Token) (ordinal : Nat) : Token :=
  { member with kind := .integerLiteral, text := toString (Number.pow2 ordinal) }

/-- The value of a member, which may be any expression. -/
@[reducible] def enumerationValue (id : Nat) : Walk Unit := do
  let start ← position
  match ← foldedLiteral? [.comma, .closeBrace] with
  | some t => foldConstant id t .int start
  | none => initializer id

@[reducible] def checkMember (enumeration : Nat) (name : String) (index : Nat) : Walk Unit := do
  if (← findChild enumeration name isVariable).isSome then
    reject index .duplicateSymbol s!"enumeration member '{name}' is declared twice"

/-- Makes or finds the member of a name at `index`. -/
@[reducible] def declareMember (enumeration : Nat) (name : String) (index : Nat) : Walk Nat := do
  declaring (checkMember enumeration name index)
  keyed index .member do
    let place ← allocateMemory
    addSymbol enumeration name (.var
      { kind := .constant, type := .int, isConstant := true, storage := .memory place })

/-- A member of an enumeration. -/
@[reducible] def enumerationMember (enumeration ordinal : Nat) : Walk Unit := do
  let index ← position
  let name ← expectIdentifier
  let id ← declareMember enumeration name.text index
  if ← eat .assign then enumerationValue id
  else if 31 ≤ ordinal then
    errorAt index .invalidLiteral
      s!"'{name.text}' needs an explicit value, automatic values stop at bit 30"
  else declaring (modifyVariable id fun v =>
    { v with literal := some (automaticValue name ordinal) })

/-- The members of an enumeration up to and including the closing brace. -/
@[reducible] def enumerationMembers (enumeration : Nat) : Walk Unit := do
  loop 0 fun ordinal => do
    if ← check .closeBrace then return .done ()
    else
      enumerationMember enumeration ordinal
      if ← eat .comma then return .again (ordinal + 1)
      else return .done ()
  expectMark .closeBrace

@[reducible] def checkEnumeration (name : String) (index : Nat) : Walk Unit := do
  let scope ← view (·.scope)
  if !(← atNamespaceLevel) && !(← inState) then
    reject index .invalidScope "enumerations cannot be declared inside functions"
  if (← findChild scope name isExclusive).isSome then alreadyDeclared index name

/-- Makes or finds the enumeration of a name at `index`. -/
@[reducible] def declareEnumeration (name : String) (index : Nat) : Walk Nat := do
  declaring (checkEnumeration name index)
  let scope ← view (·.scope)
  keyed index .enumeration do
    let id ← addSymbol scope name .enumeration
    attachMetadata id
    return id

@[reducible] def enumerationDeclaration : Walk Unit := do
  skip
  let index ← position
  let name ← expectIdentifier
  let id ← declareEnumeration name.text index
  expectMark .openBrace
  inScope id (enumerationMembers id)

/-! ### Namespaces -/

/-- The namespace of a name inside another, which is made if it is new. -/
def namespaceWithin (scope : Nat) (name : Token) (index : Nat) : Walk Nat := do
  match ← findChild scope name.text fun x => isVariable x || x.kind.isContainer with
  | some id =>
    if (← symbol id).kind.isSpace then return id
    else
      reject index .duplicateSymbol
        s!"'{name.text}' is already declared and is not a namespace"
  | none =>
    let id ← addSymbol scope name.text .space
    attachMetadata id
    return id

/-- Names joined by dots, where a dot demands a name. -/
def namespacePath : Walk (List Token) := do
  let first ← expectIdentifier
  loop [first] fun path => do
    if ← eat .period then return .again ((← expectIdentifier) :: path)
    else return .done path.reverse

def requireNamespaceLevel (index : Nat) : Walk Unit := do
  if !(← atNamespaceLevel) then
    errorAt index .invalidScope "namespaces can only be declared at global or namespace scope"

/-- The namespace that a path at `index` leads to from the current scope. -/
def namespaceOf (path : List Token) (index : Nat) : Walk Nat := do
  path.foldlM (fun scope name => namespaceWithin scope name index) (← view (·.scope))

@[reducible] def namespaceDeclaration (inner : Walk Unit) : Walk Unit := do
  let index ← position
  skip
  requireNamespaceLevel index
  let path ← namespacePath
  let id ← namespaceOf path index
  expectMark .openBrace
  inScope id (blockContents inner)

/-! ### Metadata -/

/-- A key with its value. -/
@[reducible] def metadataEntry : Walk (String × String) := do
  let key ← expectIdentifier
  expectMark .assign
  match ← tokenAt (← position) with
  | some value =>
    if value.kind.isLiteral || value.kind == .identifier then
      skip
      return (key.text, value.text)
    else unexpected "as a metadata value"
  | none => unexpected "as a metadata value"

@[reducible] def requireNoFunction : Walk Unit := do
  if ← inFunction then
    errorHere .invalidScope "metadata can only annotate declarations outside functions"

/-- Keys and values for the next declaration. -/
@[reducible] def metadataBlock : Walk Unit := do
  requireNoFunction
  skip
  let entries ← separatedUnless .closeBracket metadataEntry
  expectMark .closeBracket
  declaring (change fun s => { s with metadata := s.metadata ++ entries })

end StateScript.Walk
