import StateScript.Bytes
import StateScript.Define
import StateScript.Token.Basic

/-! # Token streams

  Tokens and defines as bytes, for exchange with a program that expands macros. A
  stream is a version, a counted list of tokens and a counted list of defines.
  Every number is of variable length; a text is its length in bytes followed by
  its UTF-8 bytes; a kind is written by its number. Bytes after the end are ignored.
-/

namespace StateScript

/-- A decoded token stream. -/
structure TokenStream where
  version : Nat
  tokens : List Token
  defines : List Define
deriving DecidableEq

namespace TokenStream

/-- The only version there is. -/
def currentVersion : Nat := 1

/-- Why bytes are not a token stream. -/
inductive Malformed where
  | endOfBytes
  | badNumber
  | badText
  | badKind
deriving DecidableEq

def Malformed.message : Malformed → String
  | .endOfBytes => "Hit the end of buffer, expected more data"
  | .badNumber => "Found a varint that didn't terminate. Is the usize too big for this platform?"
  | .badText => "Tried to parse invalid utf-8"
  | .badKind => "Serde Deserialization Error"

/-- Why a token stream cannot be used. -/
inductive Error where
  | malformed (cause : Malformed)
  | version (n : Nat)
deriving DecidableEq

def Error.message : Error → String
  | .malformed cause => "malformed token stream: " ++ cause.message
  | .version n => s!"unsupported token stream version {n}"

/-! ### Writing -/

open Bytes

def writeText (s : String) : List UInt8 :=
  let bytes := Text.utf8 s
  varint bytes.length ++ bytes

def writeToken (t : Token) : List UInt8 :=
  varint t.kind.number ++ writeText t.text ++ varint t.line ++ varint t.offset ++ writeText t.file

def writeDefine (d : Define) : List UInt8 := writeText d.identifier ++ writeText d.value

/-- The bytes of a token list and a list of defines. -/
def encode (tokens : List Token) (defines : List Define) : List UInt8 :=
  varint currentVersion ++ varint tokens.length ++ tokens.flatMap writeToken ++
    varint defines.length ++ defines.flatMap writeDefine

/-! ### Reading -/

/-- A number of at most `bytes` bytes, the last of them at most `top`. -/
def number (bytes top : Nat) : Reader Malformed Nat := fun input =>
  match readVarint top bytes input with
  | .ok r => .ok r
  | .error .short => .error .endOfBytes
  | .error .long => .error .badNumber

/-- A number below 2^16. -/
def number16 : Reader Malformed Nat := number 3 3

/-- A number below 2^32. -/
def number32 : Reader Malformed Nat := number 5 15

/-- A number below 2^64. -/
def number64 : Reader Malformed Nat := number 10 1

def readText : Reader Malformed String := do
  let length ← number64
  match Text.ofUtf8 (← take .endOfBytes length) with
  | .ok s => return s
  | .error _ => throw .badText

def readKind : Reader Malformed Kind := do
  match Kind.ofNumber? (← number32) with
  | some kind => return kind
  | none => throw .badKind

def readToken : Reader Malformed Token := do
  let kind ← readKind
  let text ← readText
  let line ← number64
  let offset ← number64
  let file ← readText
  return ⟨kind, text, line, offset, file⟩

def readDefine : Reader Malformed Define := do
  let identifier ← readText
  let value ← readText
  return ⟨identifier, value⟩

/-- Every field in order; the version is not looked at. -/
def readStream : Reader Malformed TokenStream := do
  let version ← number16
  let tokens ← many readToken (← number64)
  let defines ← many readDefine (← number64)
  return ⟨version, tokens, defines⟩

/-- Reads a stream, and then checks its version. -/
def decode (bytes : List UInt8) : Except Error TokenStream :=
  match readStream bytes with
  | .error cause => .error (.malformed cause)
  | .ok (stream, _) =>
    if stream.version = currentVersion then .ok stream else .error (.version stream.version)

end TokenStream

end StateScript
