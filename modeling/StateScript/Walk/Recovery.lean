import StateScript.Walk.Cursor

/-! # Going on after a fault

  When a statement is abandoned, the walk leaves all scopes, loops, blocks and regions
  that the statement entered, and skips to its end: past a semicolon, or past the brace
  that closes a block which the statement has opened. A brace that closes a block around
  the statement ends the skipping. But at least one token is skipped, so that the walk
  gets on: where such a brace is the first token of the statement, the walk goes on
  behind it.
-/

namespace StateScript.Walk

/-! ### Leaving what was entered -/

/-- What an abandoned statement has to leave behind as it was. -/
structure Snapshot where
  pos : Nat
  scope : Nat
  function : Nat
  loops : Nat
  blocks : Nat
  regions : Regions
deriving DecidableEq

def State.snapshot (s : State) : Snapshot :=
  { pos := s.pos, scope := s.scope, function := s.function, loops := s.loops.length,
    blocks := s.blocks.length, regions := s.regions }

/-- The outermost `n` items of a list that has the innermost first. -/
def outermost {α : Type} (n : Nat) (items : List α) : List α := items.drop (items.length - n)

def State.restore (s : State) (before : Snapshot) : State :=
  { s with
    scope := before.scope
    function := before.function
    loops := outermost before.loops s.loops
    blocks := outermost before.blocks s.blocks
    regions := before.regions }

/-! ### Skipping -/

/-- What a token adds to the depth of braces. -/
def braceStep : Kind → Int
  | .openBrace => 1
  | .closeBrace => -1
  | _ => 0

/-- How many more braces are opened than closed by some tokens. -/
def braceBalance : List Token → Int
  | [] => 0
  | t :: rest => braceStep t.kind + braceBalance rest

/-- Goes over a token in search of the end of a statement with `depth` open blocks. -/
def endTurn (depth i : Nat) (kind : Kind) : Turn Nat Nat :=
  match kind with
  | .semicolon => if depth = 0 then .done (i + 1) else .again depth
  | .openBrace => .again (depth + 1)
  | .closeBrace =>
    if depth = 0 then .done i
    else if depth = 1 then .done (i + 1)
    else .again (depth - 1)
  | _ => .again depth

/-- Where the statement ends of which the tokens before `i` have left `depth` blocks
    open. -/
def statementEnd (tokens : Array Token) (i depth : Nat) : Nat :=
  scanFrom tokens i depth (fun _ => max i tokens.size) endTurn

/-- Where the walk goes on after it has abandoned, at `pos`, the statement that starts
    at `start`. -/
def resumption (tokens : Array Token) (start pos : Nat) : Nat :=
  let balance := braceBalance (tokens.extract start pos).toList
  let stop := statementEnd tokens pos balance.toNat
  if stop = start && stop < tokens.size then stop + 1 else stop

/-- Goes on after an abandoned statement. -/
def State.recover (s : State) (before : Snapshot) : State :=
  { s.restore before with pos := resumption s.tokens before.pos s.pos }

/-- A statement that may be abandoned. -/
def guarded (statement : Walk Unit) : Walk Unit := fun s =>
  let before := s.snapshot
  match statement s with
  | .error .abandoned s =>
    if before.pos ≤ min s.pos s.tokens.size then .ok () (s.recover before) else .error .broken s
  | outcome => outcome

end StateScript.Walk
