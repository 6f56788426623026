/-! # Defines

  A define is a name with a value, given from outside or by a token stream. On a
  command line it is written `NAME` or `NAME=VALUE`.
-/

namespace StateScript

/-- A name and its value. -/
structure Define where
  identifier : String
  value : String
deriving DecidableEq, Inhabited

namespace Define

/-- A name is not empty, has letters, digits and underscores, and starts with no digit. -/
def isName : List Char → Bool
  | [] => false
  | c :: cs => (c == '_' || c.isAlpha) && cs.all fun c => c == '_' || c.isAlphanum

/-- A define whose name is not a name. -/
structure BadName where
  name : String

def BadName.message (e : BadName) : String := s!"'{e.name}' is not a valid define name"

/-- Reads `NAME` or `NAME=VALUE`; the first `=` ends the name. -/
def parse (text : String) : Except BadName Define :=
  let name := text.toList.takeWhile fun c => c != '='
  let value := text.toList.drop (name.length + 1)
  if isName name then .ok ⟨String.ofList name, String.ofList value⟩
  else .error ⟨String.ofList name⟩

end Define

end StateScript
