import StateScript.Walk.Report

/-! # The cursor

  Looking at tokens, taking them and demanding them. What looks ahead or skips tokens is
  a `scan`: it goes over the tokens from the cursor on until a kind decides.
-/

namespace StateScript.Walk

/-! ### Looking -/

/-- The kind of the token `ahead` places after the next. -/
def peekAt (ahead : Nat) : Walk (Option Kind) :=
  view fun s => s.tokens[s.pos + ahead]?.map Token.kind

/-- The kind of the next token. -/
def peek : Walk (Option Kind) := view fun s => s.tokens[s.pos]?.map Token.kind

/-- The token at an index. -/
def tokenAt (index : Nat) : Walk (Option Token) := view (·.tokens[index]?)

def atEnd : Walk Bool := view fun s => s.tokens.size ≤ s.pos

/-- Whether the next token is of this kind. -/
def check (kind : Kind) : Walk Bool := do return (← peek) == some kind

/-! ### Taking -/

def moveTo (pos : Nat) : Walk Unit := change fun s => { s with pos }

/-- Takes the next token, of which the kind is known. -/
def skip : Walk Unit := change fun s => { s with pos := s.pos + 1 }

/-- Takes the next token if it is of this kind. -/
def eat (kind : Kind) : Walk Bool := do
  if ← check kind then
    skip
    return true
  else return false

@[reducible] def unexpectedEnd {α : Type} : Walk α :=
  fatal .unexpectedEndOfFile "unexpected end of file"

/-- The next token is out of place. -/
def unexpected {α : Type} (context : String) : Walk α := do
  match ← peek with
  | none => unexpectedEnd
  | some kind => errorHere .unexpectedToken s!"unexpected {kind.describe} {context}"

/-- Takes the next token. -/
def advance : Walk Token := do
  match ← tokenAt (← position) with
  | some t =>
    skip
    return t
  | none => unexpectedEnd

/-- Takes the next token, which has to be of this kind. -/
def expect (kind : Kind) : Walk Token := do
  match ← peek with
  | none => unexpectedEnd
  | some found =>
    if found = kind then advance
    else errorHere .expectingToken s!"expected {kind.describe} but found {found.describe}"

/-- Takes a token of this kind, whose text does not matter. -/
@[reducible] def expectMark (kind : Kind) : Walk Unit := do
  let _ ← expect kind

@[reducible] def expectIdentifier : Walk Token := expect .identifier

/-- One item, and one more after each comma. -/
@[reducible] def separated {α : Type} (item : Walk α) : Walk (List α) :=
  loop [] fun items => do
    let x ← item
    if ← eat .comma then return .again (x :: items)
    else return .done (x :: items).reverse

/-- No item if the next token is `stop`, or else one and one more after each comma. -/
@[reducible] def separatedUnless {α : Type} (stop : Kind) (item : Walk α) : Walk (List α) := do
  if ← check stop then return [] else separated item

/-! ### Scanning -/

/-- Goes over at most `n` tokens from index `i` on until one decides. -/
def scan {α β : Type} (tokens : Array Token) (turn : α → Nat → Kind → Turn α β)
    (whenOver : α → β) : Nat → Nat → α → β
  | 0, _, a => whenOver a
  | n + 1, i, a =>
    match tokens[i]? with
    | none => whenOver a
    | some t =>
      match turn a i t.kind with
      | .again a => scan tokens turn whenOver n (i + 1) a
      | .done b => b

/-- Goes over the tokens from index `i` on until one decides. -/
def scanFrom {α β : Type} (tokens : Array Token) (i : Nat) (a : α) (whenOver : α → β)
    (turn : α → Nat → Kind → Turn α β) : β :=
  scan tokens turn whenOver (tokens.size - i) i a

/-- Index after the token that closes `depth` open pairs. -/
def closing? (tokens : Array Token) (opens closes : Kind) (i depth : Nat) : Option Nat :=
  scanFrom tokens i depth (fun _ => none) fun depth i kind =>
    if kind = opens then .again (depth + 1)
    else if kind = closes then
      if depth ≤ 1 then .done (some (i + 1)) else .again (depth - 1)
    else .again depth

/-- Moves past the token that closes a pair of which the opening token has been taken. -/
def skipBalanced (opens closes : Kind) : Walk Unit := do
  let pos ← position
  match ← view fun s => closing? s.tokens opens closes pos 1 with
  | some next => moveTo next
  | none =>
    moveTo (← tokenCount)
    unexpectedEnd

end StateScript.Walk
