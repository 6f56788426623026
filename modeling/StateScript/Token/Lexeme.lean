import StateScript.Diagnostic
import StateScript.Text.Blank
import StateScript.Token.Basic

/-! # Lexemes

  A script text is split into lexemes: blanks, comments, and the spellings of
  tokens. A lexeme knows nothing of its position. Reading one looks at the text
  ahead and answers how many characters it covers, which token it spells and what
  is wrong with it; `Lexeme.split` repeats that to the end of the text. What a
  reading covers is cut off by its width, so nothing of a text is lost.

  A text that spells no token (a malformed number, a foreign character) is covered
  up to the next blank.
-/

namespace StateScript

/-- Something wrong inside a lexeme, `displacement` characters after its start. -/
structure Fault where
  displacement : Nat
  code : Code
  message : String
deriving DecidableEq

/-- What reading one lexeme finds: its width, its token and its faults. -/
structure Reading where
  width : Nat
  token : Option (Kind × String) := none
  faults : List Fault := []
deriving DecidableEq

namespace Reading

open Text

/-- Letters, digits and the underscore continue a name. -/
def isWordChar (c : Char) : Bool := c.isAlphanum || c == '_'

/-- A letter or the underscore starts a name. -/
def isWordStart (c : Char) : Bool := c.isAlpha || c == '_'

/-- A reading that spells no token: it has a fault at its start, and covers `width`
    characters of `cs` and all that follows them up to the next blank. -/
def bad (cs : List Char) (width : Nat) (code : Code) (message : String) : Reading where
  width := width + ((cs.drop width).takeWhile fun c => !isBlank c).length
  faults := [⟨0, code, message⟩]

/-! ### Comments -/

/-- Width of a block comment's rest, when `depth` openers are still open. -/
def commentWidth? (depth : Nat) : List Char → Option Nat
  | '/' :: '*' :: r => (commentWidth? (depth + 1) r).map (· + 2)
  | '*' :: '/' :: r =>
    match depth with
    | 0 => some 2
    | depth + 1 => (commentWidth? depth r).map (· + 2)
  | _ :: r => (commentWidth? depth r).map (· + 1)
  | [] => none

/-- A line comment ends before the end of the line. -/
def lineComment (cs : List Char) : Reading where
  width := (cs.takeWhile fun c => c != '\n').length

/-- A block comment; the text after its opener is `r`. -/
def blockComment (r : List Char) : Reading :=
  match commentWidth? 0 r with
  | some n => { width := n + 2 }
  | none =>
    { width := r.length + 2
      faults := [⟨0, .unfinishedComment, "comment is not closed before end of file"⟩] }

/-! ### Strings -/

/-- The rest of a string literal: width, decoded text, faults, and whether a quote
    closes it. The first character is `k` characters after the opening quote's. -/
def stringRest (k : Nat) : List Char → Nat × List Char × List Fault × Bool
  | [] => (0, [], [], false)
  | '"' :: _ => (1, [], [], true)
  | '\n' :: _ => (0, [], [], false)
  | '\\' :: [] => (1, [], [], false)
  | '\\' :: '\n' :: _ => (1, [], [], false)
  | '\\' :: c :: r =>
    let (width, text, faults, closed) := stringRest (k + 2) r
    match unescapeLetter? c with
    | some d => (width + 2, d :: text, faults, closed)
    | none =>
      let message := "unknown escape sequence: \\" ++ c.toString
      (width + 2, text, ⟨k, .invalidEscapeSequence, message⟩ :: faults, closed)
  | c :: r =>
    let (width, text, faults, closed) := stringRest (k + 1) r
    (width + 1, c :: text, faults, closed)

/-- A string literal; the text after its opening quote is `r`. -/
def string (r : List Char) : Reading :=
  let (width, text, faults, closed) := stringRest 1 r
  if closed then
    { width := width + 1, token := some (.stringLiteral, String.ofList text), faults := faults }
  else
    let fault : Fault :=
      ⟨0, .unfinishedStringLiteral, "string literal is not closed before end of line"⟩
    { width := width + 1, faults := faults ++ [fault] }

/-! ### Numbers -/

/-- The kind that a suffix gives to a hexadecimal number. -/
def hexSuffix? (c : Char) : Option Kind :=
  if c = 'l' ∨ c = 'L' then some .longLiteral
  else if c = 's' ∨ c = 'S' then some .shortLiteral
  else none

/-- The kind that a suffix gives to a decimal number. -/
def decimalSuffix? (c : Char) : Option Kind :=
  if c = 'f' ∨ c = 'F' then some .floatLiteral
  else if c = 'd' ∨ c = 'D' then some .doubleLiteral
  else if c = 'l' ∨ c = 'L' then some .longLiteral
  else if c = 's' ∨ c = 'S' then some .shortLiteral
  else if c = 'b' ∨ c = 'B' then some .byteLiteral
  else none

/-- Suffixes that a number with a radix point cannot have. -/
def isIntegralSuffix : Kind → Bool
  | .longLiteral | .shortLiteral | .byteLiteral => true
  | _ => false

/-- Whether the text ahead goes on with a character that continues a name. -/
def startsWord (cs : List Char) : Bool :=
  match cs with
  | c :: _ => isWordChar c
  | [] => false

/-- A hexadecimal number `cs`; the text after its `0x` is `r`. -/
def hexadecimal (cs r : List Char) : Reading :=
  let digits := r.takeWhile isHexDigit
  let rest := r.drop digits.length
  let text := "0x" ++ String.ofList digits
  let width := digits.length + 2
  if digits.isEmpty || rest.head? == some '.' then
    bad cs width .malformedNumber s!"malformed hexadecimal literal '{text}'"
  else
    let suffix := rest.head?.bind hexSuffix?
    let width := if suffix.isSome then width + 1 else width
    if startsWord (cs.drop width) then
      bad cs width .malformedDataTypeSpecifier s!"invalid suffix on hexadecimal literal '{text}'"
    else
      { width := width, token := some (suffix.getD .integerLiteral, text) }

/-- A radix point ahead, with the digits after it. -/
def fractionOf (cs : List Char) : List Char :=
  if cs.head? == some '.' then '.' :: (cs.drop 1).takeWhile isDigit else []

/-- A decimal number: digits, at most one radix point, and at most one suffix. -/
def decimal (cs : List Char) : Reading :=
  let whole := cs.takeWhile isDigit
  let rest := cs.drop whole.length
  let dotted := rest.head? == some '.'
  let fraction := fractionOf rest
  let rest := rest.drop fraction.length
  let text := String.ofList (whole ++ fraction)
  let width := whole.length + fraction.length
  if dotted && rest.head? == some '.' then
    bad cs width .malformedNumber s!"number '{text}' has more than one radix point"
  else
    let suffix := rest.head?.bind decimalSuffix?
    let width := if suffix.isSome then width + 1 else width
    if startsWord (cs.drop width) || dotted && suffix.any isIntegralSuffix then
      bad cs width .malformedDataTypeSpecifier s!"malformed type specifier on number '{text}'"
    else
      let plain : Kind := if dotted then .floatLiteral else .integerLiteral
      { width := width, token := some (suffix.getD plain, text) }

/-! ### Names, operators and marks -/

/-- A name or a reserved word. A reserved word keeps its spelling, a truth value
    is written in lower case. -/
def word (cs : List Char) : Reading :=
  let letters := cs.takeWhile isWordChar
  let token : Kind × String :=
    match Kind.ofWord? letters with
    | some .booleanLiteral => (.booleanLiteral, Kind.foldCase letters)
    | some kind => (kind, String.ofList letters)
    | none => (.identifier, String.ofList letters)
  { width := letters.length, token := some token }

/-- Spellings of the operators and marks; one that goes on where another ends comes first. -/
def operators : List (List Char × Kind) :=
  [(['<', '<', '='], .shiftLeftAssign), (['>', '>', '='], .shiftRightAssign),
   (['<', '<'], .shiftLeft), (['>', '>'], .shiftRight), (['<', '='], .lessEqual),
   (['>', '='], .greaterEqual), (['=', '='], .equal), (['!', '='], .notEqual),
   (['&', '&'], .logicalAnd), (['|', '|'], .logicalOr), (['+', '+'], .increment),
   (['-', '-'], .decrement), (['-', '>'], .arrow), (['+', '='], .plusAssign),
   (['-', '='], .minusAssign), (['*', '='], .starAssign), (['/', '='], .slashAssign),
   (['%', '='], .percentAssign), (['^', '='], .caretAssign), (['|', '='], .pipeAssign),
   (['&', '='], .ampersandAssign), (['<'], .less), (['>'], .greater), (['='], .assign),
   (['!'], .not), (['&'], .ampersand), (['|'], .pipe), (['+'], .plus), (['-'], .minus),
   (['*'], .star), (['/'], .slash), (['%'], .percent), (['^'], .caret), (['~'], .tilde),
   (['('], .openParen), ([')'], .closeParen), (['{'], .openBrace), (['}'], .closeBrace),
   (['['], .openBracket), ([']'], .closeBracket), ([';'], .semicolon), ([','], .comma),
   (['.'], .period), ([':'], .colon), (['#'], .hash)]

/-- The longest operator or mark ahead, with its width. -/
def operator? (cs : List Char) : Option (Kind × Nat) :=
  (operators.find? fun (spelling, _) => spelling.isPrefixOf cs).map fun (spelling, kind) =>
    (kind, spelling.length)

/-- An operator or a mark; anything else is no part of a script. -/
def operator (c : Char) (cs : List Char) : Reading :=
  match operator? (c :: cs) with
  | some (kind, width) => { width := width, token := some (kind, kind.symbol?.getD "") }
  | none => bad (c :: cs) 0 .invalidCharacter s!"unexpected character: '{c}'"

/-! ### Any lexeme -/

/-- Reads the lexeme that starts with `c` and goes on in `cs`. -/
def read (c : Char) (cs : List Char) : Reading :=
  if isBlank c then { width := 1 }
  else
    match c, cs with
    | '/', '/' :: _ => lineComment (c :: cs)
    | '/', '*' :: r => blockComment r
    | '"', r => string r
    | '0', 'x' :: r => hexadecimal (c :: cs) r
    | '0', 'X' :: r => hexadecimal (c :: cs) r
    | c, cs =>
      if isDigit c then decimal (c :: cs)
      else if isWordStart c then word (c :: cs)
      else operator c cs

end Reading

/-- A piece of a script's text with what it spells. -/
structure Lexeme where
  chars : List Char
  token : Option (Kind × String)
  faults : List Fault
deriving DecidableEq

namespace Lexeme

/-- Splits a text; each step reads at least one character, so `fuel` steps are
    enough for a text of that length. -/
def splitWithin : Nat → List Char → List Lexeme
  | 0, _ => []
  | _, [] => []
  | fuel + 1, c :: cs =>
    let reading := Reading.read c cs
    ⟨(c :: cs).take reading.width, reading.token, reading.faults⟩ ::
      splitWithin fuel ((c :: cs).drop reading.width)

/-- The lexemes of a text. -/
def split (cs : List Char) : List Lexeme := splitWithin cs.length cs

end Lexeme

end StateScript
