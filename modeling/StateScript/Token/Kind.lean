import StateScript.ValueType

/-! # Kinds of tokens

  A kind says what a token is: a literal, a name, a reserved word, an operator or
  a mark. The constructors stand in the order of the kinds' numbers in a token
  stream. Reserved words are recognised in any mixture of cases.
-/

namespace StateScript

/-- What a token is. -/
inductive Kind where
  -- Literals
  | stringLiteral
  | booleanLiteral
  | byteLiteral
  | shortLiteral
  | integerLiteral
  | longLiteral
  | floatLiteral
  | doubleLiteral
  -- Names
  | identifier
  -- Words that name a type, and `null`
  | objectType
  | stringType
  | boolType
  | byteType
  | intType
  | shortType
  | floatType
  | longType
  | doubleType
  | voidType
  | nullWord
  -- Words of declarations
  | kwState
  | kwEvent
  | kwEngine
  | kwEditor
  | kwDefault
  | kwThread
  | kwConsole
  | kwImport
  | kwExport
  | kwStatic
  | kwConst
  | kwProperty
  | kwPublic
  | kwPrivate
  | kwProtected
  | kwEnum
  | kwNamespace
  -- Words of statements and expressions
  | kwIf
  | kwElse
  | kwWhile
  | kwDo
  | kwFor
  | kwSwitch
  | kwCase
  | kwReturn
  | kwBreak
  | kwContinue
  | kwGoto
  | kwGotoState
  | kwLock
  | kwAtom
  | kwBreakpoint
  | kwNew
  | kwIndexer
  -- Operators
  | plus
  | minus
  | star
  | slash
  | percent
  | caret
  | pipe
  | ampersand
  | tilde
  | shiftLeft
  | shiftRight
  | increment
  | decrement
  | not
  | logicalAnd
  | logicalOr
  | equal
  | notEqual
  | less
  | greater
  | lessEqual
  | greaterEqual
  -- Assignments
  | assign
  | plusAssign
  | minusAssign
  | starAssign
  | slashAssign
  | percentAssign
  | caretAssign
  | pipeAssign
  | ampersandAssign
  | shiftLeftAssign
  | shiftRightAssign
  -- Punctuation
  | arrow
  | openParen
  | closeParen
  | openBrace
  | closeBrace
  | openBracket
  | closeBracket
  | semicolon
  | comma
  | period
  | colon
  | hash
deriving DecidableEq, Inhabited

namespace Kind

/-- Every kind, in the order of the numbers. -/
def all : List Kind :=
  [.stringLiteral, .booleanLiteral, .byteLiteral, .shortLiteral, .integerLiteral, .longLiteral,
   .floatLiteral, .doubleLiteral, .identifier, .objectType, .stringType, .boolType, .byteType,
   .intType, .shortType, .floatType, .longType, .doubleType, .voidType, .nullWord, .kwState,
   .kwEvent, .kwEngine, .kwEditor, .kwDefault, .kwThread, .kwConsole, .kwImport, .kwExport,
   .kwStatic, .kwConst, .kwProperty, .kwPublic, .kwPrivate, .kwProtected, .kwEnum, .kwNamespace,
   .kwIf, .kwElse, .kwWhile, .kwDo, .kwFor, .kwSwitch, .kwCase, .kwReturn, .kwBreak, .kwContinue,
   .kwGoto, .kwGotoState, .kwLock, .kwAtom, .kwBreakpoint, .kwNew, .kwIndexer, .plus, .minus,
   .star, .slash, .percent, .caret, .pipe, .ampersand, .tilde, .shiftLeft, .shiftRight,
   .increment, .decrement, .not, .logicalAnd, .logicalOr, .equal, .notEqual, .less, .greater,
   .lessEqual, .greaterEqual, .assign, .plusAssign, .minusAssign, .starAssign, .slashAssign,
   .percentAssign, .caretAssign, .pipeAssign, .ampersandAssign, .shiftLeftAssign,
   .shiftRightAssign, .arrow, .openParen, .closeParen, .openBrace, .closeBrace, .openBracket,
   .closeBracket, .semicolon, .comma, .period, .colon, .hash]

/-- Number of a kind in a token stream. -/
def number (k : Kind) : Nat := k.ctorIdx

def ofNumber? (n : Nat) : Option Kind := all[n]?

@[simp] theorem ofNumber?_number (k : Kind) : ofNumber? k.number = some k := by
  cases k <;> rfl

/-- Name of a kind in token dumps. -/
def name : Kind → String
  | .stringLiteral => "StringLiteral"
  | .booleanLiteral => "BooleanLiteral"
  | .byteLiteral => "ByteLiteral"
  | .shortLiteral => "ShortLiteral"
  | .integerLiteral => "IntegerLiteral"
  | .longLiteral => "LongLiteral"
  | .floatLiteral => "FloatLiteral"
  | .doubleLiteral => "DoubleLiteral"
  | .identifier => "Identifier"
  | .objectType => "Object"
  | .stringType => "String"
  | .boolType => "Bool"
  | .byteType => "Byte"
  | .intType => "Int"
  | .shortType => "Short"
  | .floatType => "Float"
  | .longType => "Long"
  | .doubleType => "Double"
  | .voidType => "Void"
  | .nullWord => "Null"
  | .kwState => "State"
  | .kwEvent => "Event"
  | .kwEngine => "Engine"
  | .kwEditor => "Editor"
  | .kwDefault => "Default"
  | .kwThread => "Thread"
  | .kwConsole => "Console"
  | .kwImport => "Import"
  | .kwExport => "Export"
  | .kwStatic => "Static"
  | .kwConst => "Const"
  | .kwProperty => "Property"
  | .kwPublic => "Public"
  | .kwPrivate => "Private"
  | .kwProtected => "Protected"
  | .kwEnum => "Enum"
  | .kwNamespace => "Namespace"
  | .kwIf => "If"
  | .kwElse => "Else"
  | .kwWhile => "While"
  | .kwDo => "Do"
  | .kwFor => "For"
  | .kwSwitch => "Switch"
  | .kwCase => "Case"
  | .kwReturn => "Return"
  | .kwBreak => "Break"
  | .kwContinue => "Continue"
  | .kwGoto => "Goto"
  | .kwGotoState => "GotoState"
  | .kwLock => "Lock"
  | .kwAtom => "Atom"
  | .kwBreakpoint => "Breakpoint"
  | .kwNew => "New"
  | .kwIndexer => "Indexer"
  | .plus => "Plus"
  | .minus => "Minus"
  | .star => "Star"
  | .slash => "Slash"
  | .percent => "Percent"
  | .caret => "Caret"
  | .pipe => "Pipe"
  | .ampersand => "Ampersand"
  | .tilde => "Tilde"
  | .shiftLeft => "ShiftLeft"
  | .shiftRight => "ShiftRight"
  | .increment => "Increment"
  | .decrement => "Decrement"
  | .not => "Not"
  | .logicalAnd => "LogicalAnd"
  | .logicalOr => "LogicalOr"
  | .equal => "Equal"
  | .notEqual => "NotEqual"
  | .less => "Less"
  | .greater => "Greater"
  | .lessEqual => "LessEqual"
  | .greaterEqual => "GreaterEqual"
  | .assign => "Assign"
  | .plusAssign => "PlusAssign"
  | .minusAssign => "MinusAssign"
  | .starAssign => "StarAssign"
  | .slashAssign => "SlashAssign"
  | .percentAssign => "PercentAssign"
  | .caretAssign => "CaretAssign"
  | .pipeAssign => "PipeAssign"
  | .ampersandAssign => "AmpersandAssign"
  | .shiftLeftAssign => "ShiftLeftAssign"
  | .shiftRightAssign => "ShiftRightAssign"
  | .arrow => "Arrow"
  | .openParen => "LParen"
  | .closeParen => "RParen"
  | .openBrace => "LBrace"
  | .closeBrace => "RBrace"
  | .openBracket => "LBracket"
  | .closeBracket => "RBracket"
  | .semicolon => "Semicolon"
  | .comma => "Comma"
  | .period => "Period"
  | .colon => "Colon"
  | .hash => "Hash"

/-- Spelling of a kind whose tokens all look alike; literals and names have none. -/
def symbol? : Kind → Option String
  | .objectType => some "object"
  | .stringType => some "string"
  | .boolType => some "bool"
  | .byteType => some "byte"
  | .intType => some "int"
  | .shortType => some "short"
  | .floatType => some "float"
  | .longType => some "long"
  | .doubleType => some "double"
  | .voidType => some "void"
  | .nullWord => some "null"
  | .kwState => some "state"
  | .kwEvent => some "event"
  | .kwEngine => some "engine"
  | .kwEditor => some "editor"
  | .kwDefault => some "default"
  | .kwThread => some "thread"
  | .kwConsole => some "console"
  | .kwImport => some "import"
  | .kwExport => some "export"
  | .kwStatic => some "static"
  | .kwConst => some "const"
  | .kwProperty => some "property"
  | .kwPublic => some "public"
  | .kwPrivate => some "private"
  | .kwProtected => some "protected"
  | .kwEnum => some "enum"
  | .kwNamespace => some "namespace"
  | .kwIf => some "if"
  | .kwElse => some "else"
  | .kwWhile => some "while"
  | .kwDo => some "do"
  | .kwFor => some "for"
  | .kwSwitch => some "switch"
  | .kwCase => some "case"
  | .kwReturn => some "return"
  | .kwBreak => some "break"
  | .kwContinue => some "continue"
  | .kwGoto => some "goto"
  | .kwGotoState => some "gotostate"
  | .kwLock => some "lock"
  | .kwAtom => some "atom"
  | .kwBreakpoint => some "breakpoint"
  | .kwNew => some "new"
  | .kwIndexer => some "indexer"
  | .plus => some "+"
  | .minus => some "-"
  | .star => some "*"
  | .slash => some "/"
  | .percent => some "%"
  | .caret => some "^"
  | .pipe => some "|"
  | .ampersand => some "&"
  | .tilde => some "~"
  | .shiftLeft => some "<<"
  | .shiftRight => some ">>"
  | .increment => some "++"
  | .decrement => some "--"
  | .not => some "!"
  | .logicalAnd => some "&&"
  | .logicalOr => some "||"
  | .equal => some "=="
  | .notEqual => some "!="
  | .less => some "<"
  | .greater => some ">"
  | .lessEqual => some "<="
  | .greaterEqual => some ">="
  | .assign => some "="
  | .plusAssign => some "+="
  | .minusAssign => some "-="
  | .starAssign => some "*="
  | .slashAssign => some "/="
  | .percentAssign => some "%="
  | .caretAssign => some "^="
  | .pipeAssign => some "|="
  | .ampersandAssign => some "&="
  | .shiftLeftAssign => some "<<="
  | .shiftRightAssign => some ">>="
  | .arrow => some "->"
  | .openParen => some "("
  | .closeParen => some ")"
  | .openBrace => some (String.singleton '{')
  | .closeBrace => some (String.singleton '}')
  | .openBracket => some "["
  | .closeBracket => some "]"
  | .semicolon => some ";"
  | .comma => some ","
  | .period => some "."
  | .colon => some ":"
  | .hash => some "#"
  | _ => none

/-! ### Classes -/

def isLiteral : Kind → Bool
  | .stringLiteral | .booleanLiteral | .byteLiteral | .shortLiteral | .integerLiteral
  | .longLiteral | .floatLiteral | .doubleLiteral => true
  | _ => false

/-- Kinds whose spelling is a word. -/
def isKeyword (k : Kind) : Bool :=
  match k.symbol? with
  | some s => s.toList.all fun c => c.isAlpha
  | none => false

/-- The primitive that a word names as a type; `null` is not such a word. -/
def primitive? : Kind → Option Primitive
  | .objectType => some .object
  | .stringType => some .string
  | .boolType => some .bool
  | .byteType => some .byte
  | .intType => some .int
  | .shortType => some .short
  | .floatType => some .float
  | .longType => some .long
  | .doubleType => some .double
  | .voidType => some .void
  | _ => none

/-- The primitive of a literal of this kind. -/
def literalPrimitive? : Kind → Option Primitive
  | .stringLiteral => some .string
  | .booleanLiteral => some .bool
  | .byteLiteral => some .byte
  | .shortLiteral => some .short
  | .integerLiteral => some .int
  | .longLiteral => some .long
  | .floatLiteral => some .float
  | .doubleLiteral => some .double
  | .nullWord => some .null
  | _ => none

def isNumericLiteral (k : Kind) : Bool :=
  match k.literalPrimitive? with
  | some p => p.isNumeric
  | none => false

/-- Type of a literal of this kind. -/
def literalType (k : Kind) : ValueType :=
  match k.literalPrimitive? with
  | some p => .scalar p
  | none => .invalid

/-- The binary operator that a compound assignment applies. -/
def compoundOperator? : Kind → Option Kind
  | .plusAssign => some .plus
  | .minusAssign => some .minus
  | .starAssign => some .star
  | .slashAssign => some .slash
  | .percentAssign => some .percent
  | .caretAssign => some .caret
  | .pipeAssign => some .pipe
  | .ampersandAssign => some .ampersand
  | .shiftLeftAssign => some .shiftLeft
  | .shiftRightAssign => some .shiftRight
  | _ => none

def isAssignment (k : Kind) : Bool := k == .assign || k.compoundOperator?.isSome

def isRelational : Kind → Bool
  | .equal | .notEqual | .less | .greater | .lessEqual | .greaterEqual => true
  | _ => false

/-- Brackets, separators and the directive mark. -/
def isPunctuation : Kind → Bool
  | .openParen | .closeParen | .openBrace | .closeBrace | .openBracket | .closeBracket
  | .semicolon | .comma | .period | .colon | .hash => true
  | _ => false

/-! ### Texts -/

/-- How a diagnostic speaks of a token of this kind. -/
def describe (k : Kind) : String :=
  match k with
  | .stringLiteral => "string literal"
  | .booleanLiteral => "boolean literal"
  | .byteLiteral | .shortLiteral | .integerLiteral | .longLiteral | .floatLiteral
  | .doubleLiteral => "numeric literal"
  | .identifier => "identifier"
  | k => "'" ++ k.symbol?.getD "?" ++ "'"

/-- The reserved words. -/
def keywords : List Kind := all.filter isKeyword

/-- A word in lower case, as reserved words are compared. -/
def foldCase (word : List Char) : String := String.ofList (word.map Char.toLower)

/-- The kind of a word, if the word is reserved. `true` and `false` are literals. -/
def ofWord? (word : List Char) : Option Kind :=
  let folded := foldCase word
  if folded = "true" ∨ folded = "false" then some .booleanLiteral
  else keywords.find? fun k => k.symbol? = some folded

end Kind

end StateScript
