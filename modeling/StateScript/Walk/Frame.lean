import StateScript.Walk.Scope

/-! # Frames

  A function's frame is laid out once its locals are counted: the locals lie right below
  the frame register, the last at offset -1; below them are two slots of the machine, and
  below those the parameters, the last on top.
-/

namespace StateScript.Walk

def isParameter (t : Table) (id : Nat) : Bool :=
  ((t.get? id).bind (·.kind.var?)).any (·.kind == .parameter)

/-- The storage of a variable in a frame of `locals` locals and `count` parameters, of
    which it may be the one at `place`. -/
def frameStorage (locals count place : Nat) (v : Variable) : Storage :=
  match v.kind, v.storage with
  | .local, .stack ordinal => .stack (ordinal - locals)
  | .parameter, .stack _ => .stack (-(locals + 2 + (count - 1 - place : Int)))
  | _, storage => storage

/-- Gives all variables of a function their places in its frame. -/
def layFrame (t : Table) (function locals : Nat) : Table :=
  let children := t.children function
  let parameters := children.filter (isParameter t)
  let t := children.foldl (fun t id =>
    t.modifyKind id (·.mapVariable fun v =>
      { v with storage := frameStorage locals parameters.length (parameters.idxOf id) v })) t
  t.modifyKind function (·.mapFunction fun f => { f with frameSize := locals })

/-- Lays out the frame of a function at the end of its body. -/
def finishFrame (function : Nat) : Walk Unit := do
  ensureScopes [function]
  let locals ← view (·.localCount)
  change fun s => { s with table := layFrame s.table function locals }

/-- A variable that is never read, and the token that declares it. -/
def unusedVariable? (s : State) (id : Nat) : Option (Nat × String) := do
  let x ← s.table.get? id
  let v ← x.kind.var?
  let isTracked := v.kind == .local || v.kind == .parameter
  if isTracked && !v.used && !(x.identifier.toList.head? == some '$') then
    let d ← s.declared.find? (·.symbol == id)
    return (d.token, x.identifier)
  else none

/-- Warns about the locals and parameters of a function that are never read. -/
def checkUnused (function : Nat) : Walk Unit := do
  if ← emitting then
    ensureScopes [function]
    let unused ← view fun s => (s.table.children function).filterMap (unusedVariable? s)
    unused.forM fun (index, name) =>
      reportAt index .unusedSymbol .warning s!"'{name}' is never read"

end StateScript.Walk
