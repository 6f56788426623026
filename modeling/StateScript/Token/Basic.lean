import StateScript.Text.Escape
import StateScript.Token.Kind

/-! # Tokens

  A token is a kind, a text and a position. The text of a string literal is the
  decoded text, and the text of a number is its digits without the suffix, so that
  `Token.render` has to put quotes, escapes and suffixes back.
-/

namespace StateScript

/-- One lexical unit of a script with its position. -/
structure Token where
  kind : Kind
  text : String
  /-- Line, counted from one. -/
  line : Nat
  /-- Column in characters, counted from one. -/
  offset : Nat
  file : String
deriving DecidableEq, Inhabited

namespace Token

/-- Source text that lexes back to this token. -/
def render (t : Token) : String :=
  match t.kind with
  | .stringLiteral => "\"" ++ Text.escape t.text ++ "\""
  | .byteLiteral => t.text ++ "b"
  | .shortLiteral => t.text ++ "s"
  | .longLiteral => t.text ++ "l"
  | .doubleLiteral => t.text ++ "d"
  | .floatLiteral => if t.text.toList.contains '.' then t.text else t.text ++ "f"
  | _ => t.text

/-- The names of a dotted path, joined again. -/
def dotted (path : List Token) : String := String.intercalate "." (path.map text)

end Token

end StateScript
