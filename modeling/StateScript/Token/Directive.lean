import StateScript.Define
import StateScript.Diagnostic
import StateScript.Token.Basic

/-! # Directive lines

  Macros and includes are expanded before tokens arrive here. A directive that is
  still there is reported, and the rest of its line is dropped; every other token
  stays. A line belongs to a file: tokens of another file are kept, even if they
  carry the same line number.
-/

namespace StateScript

/-- Tokens without directive lines, with the defines in force. -/
structure Expanded where
  tokens : List Token
  defines : List Define
  log : Log

namespace Token

/-- Whether two tokens stand on the same line of the same file. -/
def sameLine (a b : Token) : Bool := a.line == b.line && a.file == b.file

def directiveFound (t : Token) : Diagnostic :=
  ⟨.unsupportedDirective, "preprocessor directives require an external preprocessor", .error,
    t.line, t.offset, t.file⟩

/-- Splits tokens into those kept and the marks that start a directive line.
    `mark` is the mark of the directive line that may still go on. -/
def dropDirectives (mark : Option Token) : List Token → List Token × List Token
  | [] => ([], [])
  | t :: ts =>
    if mark.any (sameLine t) then dropDirectives mark ts
    else if t.kind = .hash then
      let (kept, marks) := dropDirectives (some t) ts
      (kept, t :: marks)
    else
      let (kept, marks) := dropDirectives none ts
      (t :: kept, marks)

/-- Drops the directive lines of a token list and reports each. -/
def expand (tokens : List Token) (flags : Flags) (defines : List Define) : Expanded :=
  let (kept, marks) := dropDirectives none tokens
  { tokens := kept
    defines := defines
    log := (Log.mk flags []).pushAll (marks.map directiveFound) }

end Token

end StateScript
