import StateScript.Text.Layout

/-! # Escaped text

  Three ways to write a text between double quotes:

  - in a script, where ten characters have a one-letter escape and every other
    character stands for itself;
  - in a listing, where all but printable ASCII is written as a code point;
  - in a line of JSON, where quotes, backslashes and control characters are escaped.
-/

namespace StateScript.Text

/-! ### Scripts -/

/-- The letter that follows the backslash, for the characters a script escapes. -/
def escapeLetter? (c : Char) : Option Char :=
  if c = '\x07' then some 'a'
  else if c = '\x08' then some 'b'
  else if c = '\x0c' then some 'f'
  else if c = '\n' then some 'n'
  else if c = '\r' then some 'r'
  else if c = '\t' then some 't'
  else if c = '\x0b' then some 'v'
  else if c = '\x00' then some '0'
  else if c = '\\' then some '\\'
  else if c = '"' then some '"'
  else none

/-- The character that a backslash and a letter stand for in a script. -/
def unescapeLetter? (c : Char) : Option Char :=
  if c = 'a' then some '\x07'
  else if c = 'b' then some '\x08'
  else if c = 'f' then some '\x0c'
  else if c = 'n' then some '\n'
  else if c = 'r' then some '\r'
  else if c = 't' then some '\t'
  else if c = 'v' then some '\x0b'
  else if c = '0' then some '\x00'
  else if c = '\\' then some '\\'
  else if c = '"' then some '"'
  else none

/-- A text as it stands between the quotes of a script's string literal. -/
def escapeChars (cs : List Char) : List Char :=
  cs.flatMap fun c =>
    match escapeLetter? c with
    | some letter => ['\\', letter]
    | none => [c]

def escape (s : String) : String := String.ofList (escapeChars s.toList)

/-- The two tables are inverse to each other. -/
theorem unescapeLetter?_of_escapeLetter? {c letter : Char} (h : escapeLetter? c = some letter) :
    unescapeLetter? letter = some c := by
  simp only [escapeLetter?] at h
  repeat' split at h
  all_goals first
    | (subst_vars; obtain rfl := Option.some.inj h; rfl)
    | cases h

/-! ### Listings -/

/-- A character of a listed text. -/
def listedChar (c : Char) : List Char :=
  if c = '\t' then ['\\', 't']
  else if c = '\r' then ['\\', 'r']
  else if c = '\n' then ['\\', 'n']
  else if c = '\'' then ['\\', '\'']
  else if c = '"' then ['\\', '"']
  else if c = '\\' then ['\\', '\\']
  else if 0x20 ≤ c.toNat ∧ c.toNat ≤ 0x7E then [c]
  else ['\\', 'u', '{'] ++ Nat.toDigits 16 c.toNat ++ ['}']

/-- A text as a listing shows it, quotes included. -/
def listed (s : String) : String :=
  String.ofList ('"' :: s.toList.flatMap listedChar ++ ['"'])

/-! ### JSON -/

/-- A character of a JSON string. -/
def jsonChar (c : Char) : List Char :=
  if c = '"' then ['\\', '"']
  else if c = '\\' then ['\\', '\\']
  else if c = '\x08' then ['\\', 'b']
  else if c = '\x0c' then ['\\', 'f']
  else if c = '\n' then ['\\', 'n']
  else if c = '\r' then ['\\', 'r']
  else if c = '\t' then ['\\', 't']
  else if c.toNat < 0x20 then
    let digits := Nat.toDigits 16 c.toNat
    ['\\', 'u'] ++ List.replicate (4 - digits.length) '0' ++ digits
  else [c]

/-- A JSON string, quotes included. -/
def json (s : String) : String :=
  String.ofList ('"' :: s.toList.flatMap jsonChar ++ ['"'])

end StateScript.Text
