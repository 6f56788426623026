import StateScript.Token.Lexeme

/-! # From text to tokens

  Lexemes get their positions by walking over the characters before them: a newline
  starts a line, every other character moves one column on. The tokens of a text
  are the tokens of its lexemes at their positions, and its faults are reported
  where they stand.
-/

namespace StateScript

/-- A place in a text: line and column, both counted from one. -/
structure Position where
  line : Nat := 1
  column : Nat := 1
deriving DecidableEq, Inhabited

namespace Position

/-- The place after one more character. -/
def after (p : Position) (c : Char) : Position :=
  if c = '\n' then ⟨p.line + 1, 1⟩ else ⟨p.line, p.column + 1⟩

/-- The place after some more characters. -/
def afterAll (p : Position) (cs : List Char) : Position := cs.foldl after p

end Position

namespace Lexeme

/-- Pairs each lexeme with the place where it starts. -/
def place (p : Position) : List Lexeme → List (Position × Lexeme)
  | [] => []
  | x :: xs => (p, x) :: place (p.afterAll x.chars) xs

/-- The token of a placed lexeme. -/
def tokenAt (file : String) (p : Position) (x : Lexeme) : Option Token :=
  x.token.map fun (kind, text) => ⟨kind, text, p.line, p.column, file⟩

/-- The findings about a placed lexeme. -/
def diagnosticsAt (file : String) (p : Position) (x : Lexeme) : List Diagnostic :=
  x.faults.map fun f => ⟨f.code, f.message, .error, p.line, p.column + f.displacement, file⟩

end Lexeme

/-- Tokens of a text, and the log of what is wrong with it. -/
structure Lexed where
  tokens : List Token
  log : Log

/-- Splits a text into tokens; faults are collected, none stops the work. -/
def lex (source : String) (flags : Flags) (file : String) : Lexed :=
  let placed := Lexeme.place {} (Lexeme.split source.toList)
  { tokens := placed.filterMap fun (p, x) => x.tokenAt file p
    log := (Log.mk flags []).pushAll (placed.flatMap fun (p, x) => x.diagnosticsAt file p) }

end StateScript
