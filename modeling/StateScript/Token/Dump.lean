import StateScript.Text.Layout
import StateScript.Token.Basic

/-! # Token dumps

  One line per token: position, class, kind and source text. Lines can be coloured
  for a terminal, and can start with the file name.
-/

namespace StateScript

/-- How a dump looks. -/
structure DumpStyle where
  color : Bool := true
  showFile : Bool := false

namespace Kind

/-- Class of a kind in dumps. -/
def dumpClass (k : Kind) : String :=
  match k with
  | .stringLiteral => "STRING"
  | .booleanLiteral => "BOOL"
  | .byteLiteral | .shortLiteral | .integerLiteral | .longLiteral => "INT"
  | .floatLiteral | .doubleLiteral => "FLOAT"
  | .identifier => "IDENT"
  | k =>
    if k.isPunctuation then "PUNCT"
    else if k.isAssignment then "ASSIGN"
    else if k.isRelational then "CMP"
    else if k.isKeyword then "KEYWORD"
    else "OP"

/-- Terminal sequence that sets the colour of a kind. -/
def dumpColor (k : Kind) : String :=
  if k = .stringLiteral then "\x1b[32m"
  else if k.isLiteral then "\x1b[36m"
  else if k = .identifier then "\x1b[33m"
  else if k.isKeyword then "\x1b[34m"
  else if k.isPunctuation then "\x1b[2m"
  else "\x1b[35m"

end Kind

namespace Token

/-- The line of one token. -/
def dumpLine (style : DumpStyle) (t : Token) : String :=
  let color := if style.color then t.kind.dumpColor else ""
  let reset := if style.color then "\x1b[0m" else ""
  let dim := if style.color then "\x1b[2m" else ""
  let file := if style.showFile then s!"{dim}{t.file}:{reset}" else ""
  file ++ dim ++ "[" ++ Text.zeroPadded 2 t.line ++ ":" ++ Text.zeroPadded 2 t.offset ++ "]" ++
    reset ++ " " ++ color ++ Text.padRight 8 t.kind.dumpClass ++ " " ++ t.kind.name ++ " " ++
    t.render ++ reset ++ "\n"

/-- The dump of a list of tokens. -/
def dump (style : DumpStyle) (ts : List Token) : String := String.join (ts.map (dumpLine style))

end Token

end StateScript
