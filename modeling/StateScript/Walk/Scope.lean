import StateScript.Walk.Cursor

/-! # Names

  Making symbols and finding them. A token that declares a symbol is remembered with it:
  the first walk makes the symbol and the second finds it again.

  A simple name is looked up among the locals of the open blocks and then from the
  innermost scope outward. Of the variables of a function only the parameters are found
  through its scope, since its locals are visible in their blocks alone. In a dotted
  path, all segments but the last name containers.
-/

namespace StateScript.Walk

/-! ### Making symbols -/

/-- Adds a symbol to a scope. -/
def addSymbol (scope : Nat) (identifier : String) (kind : SymbolKind) : Walk Nat := fun s =>
  let id := s.table.size
  if scope < id then .ok id { s with table := s.table.add (some scope) identifier kind }
  else .error .broken s

/-- The symbol that was declared for a token in a role. -/
def declared? (index : Nat) (role : Role) : Walk (Option Nat) :=
  view fun s => (s.declared.find? fun d => d.token == index && d.role == role).map (·.symbol)

/-- Finds the symbol again that was declared for a token in a role. If the declaration was
    refused, its statement is skipped. -/
def retrieve (index : Nat) (role : Role) : Walk Nat := do
  match ← declared? index role with
  | some id =>
    change fun s => { s with recalled := ⟨index, role, id, s.function, s.regions⟩ :: s.recalled }
    return id
  | none =>
    if ← isRejected index then throw .abandoned
    else fatal .internalError s!"no symbol was declared for token {index} ({role.name})"

/-- Makes a symbol and remembers it for a token in a role. -/
def record (index : Nat) (role : Role) (create : Walk Nat) : Walk Nat := do
  let id ← create
  change fun s => { s with declared := ⟨index, role, id, s.function, s.regions⟩ :: s.declared }
  return id

/-- Makes a symbol in the first walk and finds it again in the second. -/
def keyed (index : Nat) (role : Role) (create : Walk Nat) : Walk Nat := do
  if ← emitting then retrieve index role else record index role create

/-- A target of jumps within the current function. -/
def target (index : Nat) (role : Role) : Walk Nat := do
  let function ← view (·.function)
  keyed index role (addSymbol function "$target" (.target none))

def allocateMemory : Walk Nat := fun s => .ok s.memorySize { s with memorySize := s.memorySize + 1 }

/-- The ordinal of a new local of the current function. -/
def allocateLocal : Walk Nat := fun s => .ok s.localCount { s with localCount := s.localCount + 1 }

/-- Makes a local visible in the innermost block. -/
def makeVisible (id : Nat) : Walk Unit :=
  change fun s =>
    match s.blocks with
    | [] => s
    | block :: outer => { s with blocks := (id :: block) :: outer }

@[reducible] def makeVisibleIf (isInner : Bool) (id : Nat) : Walk Unit := do
  if isInner then makeVisible id

/-- Declares a local that the compiler needs for itself. -/
def internalLocal (index : Nat) (role : Role) (name : String) (type : ValueType) : Walk Nat := do
  let function ← view (·.function)
  let id ← keyed index role do
    let ordinal ← allocateLocal
    change fun s => { s with internalVariables := s.internalVariables + 1 }
    addSymbol function name (.var { kind := .local, type, storage := .stack ordinal, used := true })
  makeVisible id
  return id

/-- The symbol of a text; the same text always has the same symbol. -/
def intern (text : String) : Walk Nat := do
  match ← view fun s => s.table.find? globalScope text (·.kind.isText) with
  | some id => return id
  | none => addSymbol globalScope text .text

/-- Gives a new declaration the keys and values that wait for it. -/
def attachMetadata (owner : Nat) : Walk Unit := do
  let entries ← view (·.metadata)
  change fun s => { s with metadata := [] }
  entries.forM fun (key, value) => do
    let _ ← addSymbol owner key (.metadata value)

/-! ### Views of symbols -/

def modifyVariable (id : Nat) (f : Variable → Variable) : Walk Unit :=
  modifyKind id (·.mapVariable f)

def modifyFunction (id : Nat) (f : Function → Function) : Walk Unit :=
  modifyKind id (·.mapFunction f)

def markUsed (id : Nat) : Walk Unit := modifyKind id SymbolKind.markUsed

def variableType (id : Nat) : Walk ValueType := do
  match (← symbol id).kind.var? with
  | some v => return v.type
  | none => return .invalid

/-- Type of a variable, and whether it is constant. -/
def variableTraits (id : Nat) : Walk (ValueType × Bool) := do
  match (← symbol id).kind.var? with
  | some v => return (v.type, v.isConstant)
  | none => return (.invalid, false)

/-- Where the value of a variable lives. -/
@[reducible] def storage? (id : Nat) : Walk (Option Storage) := do
  return (← symbol id).kind.var?.map (·.storage)

/-- The operand that stands for a variable. -/
def slot (id : Nat) : Walk Operand := do
  match ← storage? id with
  | some (.memory i) => return .memory i
  | some (.stack i) => return .stack i
  | none => return .symbol id

/-- The operand that stands for the element of an array that a register selects. -/
def indexedSlot (id : Nat) (index : Register) : Walk Operand := do
  match ← storage? id with
  | some (.memory i) => return .memoryIndexed i index
  | some (.stack i) => return .stackIndexed i index
  | none => return .symbol id

/-! ### Finding symbols -/

def isVariable (x : Symbol) : Bool := x.kind.var?.isSome

/-- A variable or a container other than a function: what excludes a second use of a name. -/
def isExclusive (x : Symbol) : Bool := x.kind.isExclusive

/-- Makes sure of scopes and of what they own. -/
@[reducible] def ensureScopes (scopes : List Nat) : Walk Unit :=
  ensure fun s => s.knows (scopes ++ scopes.flatMap s.table.children)

@[reducible] def findChild (scope : Nat) (name : String) (filter : Symbol → Bool) :
    Walk (Option Nat) := do
  ensureScopes [scope]
  view fun s => s.table.find? scope name filter

/-- The newest visible local of a name. -/
@[reducible] def lookupLocal (name : String) : Walk (Option Nat) := do
  ensure fun s => s.knows s.blocks.flatten
  view fun s => s.blocks.flatten.find? (s.table.isMatch name fun _ => true)

/-- A scope and its owners, innermost first, in at most `steps` steps. Nothing if one
    is missing. -/
def scopeChain (t : Table) : Nat → Nat → Option (List Nat)
  | 0, _ => none
  | steps + 1, id =>
    match t.get? id with
    | none => none
    | some x =>
      match x.scope with
      | none => some [id]
      | some owner => (scopeChain t steps owner).map (id :: ·)

/-- The scopes that are searched for a name, innermost first. -/
def scopes : Walk (List Nat) := fun s =>
  match scopeChain s.table s.table.size s.scope with
  | some ids => .ok ids s
  | none => .error .broken s

/-- Locals of a function are not found through its scope. -/
def isFoundIn (t : Table) (scope : Nat) (x : Symbol) : Bool :=
  let inFunction := scope != globalScope && (t.get? scope).any (·.kind.function?.isSome)
  match x.kind.var? with
  | some v => !inFunction || v.kind == .parameter
  | none => true

/-- The nearest symbol of a name from the current scope outward. -/
@[reducible] def resolve (name : String) (filter : Symbol → Bool) : Walk (Option Nat) := do
  let ids ← scopes
  ensureScopes ids
  view fun s => ids.findSome? fun scope =>
    s.table.find? scope name fun x => isFoundIn s.table scope x && filter x

/-- The container that names lead to from a scope. -/
def descend : List Token → Nat → Walk (Option Nat)
  | [], scope => return some scope
  | segment :: rest, scope => do
    match ← findChild scope segment.text (·.kind.isContainer) with
    | some id => descend rest id
    | none => return none

/-- The container that a path of at least one name leads to. -/
@[reducible] def resolveContainer (first : Token) (rest : List Token) : Walk (Option Nat) := do
  match ← resolve first.text (·.kind.isContainer) with
  | some scope => descend rest scope
  | none => return none

/-- The symbol that a path of at least one name leads to. -/
def resolvePath (path : List Token) (filter : Symbol → Bool) : Walk (Option Nat) := do
  match path.getLast?, path.dropLast with
  | none, _ => return none
  | some last, [] =>
    match ← lookupLocal last.text with
    | some id =>
      if filter (← symbol id) then return some id else resolve last.text filter
    | none => resolve last.text filter
  | some last, first :: rest =>
    match ← resolveContainer first rest with
    | some container => findChild container last.text filter
    | none => return none

/-- The functions that a call through a path may mean, nearest scope first. -/
def candidates (path : List Token) : Walk (List Nat) := do
  let isCallable (x : Symbol) : Bool := x.kind.function?.any fun f => !f.flags.method
  match path.getLast?, path.dropLast with
  | none, _ => return []
  | some last, [] =>
    let ids ← scopes
    ensureScopes ids
    view fun s => ids.flatMap fun scope => s.table.findAll scope last.text isCallable
  | some last, first :: rest =>
    match ← resolveContainer first rest with
    | some container =>
      ensureScopes [container]
      view fun s => s.table.findAll container last.text isCallable
    | none => return []

/-- Names joined by dots. -/
def qualifiedPath : Walk (List Token) := do
  let first ← expectIdentifier
  loop [first] fun path => do
    if (← check .period) && (← peekAt 1) == some .identifier then
      skip
      return .again ((← advance) :: path)
    else return .done path.reverse

end StateScript.Walk
