import StateScript.Flags
import StateScript.Text.Escape

/-! # Diagnostics

  Everything a compilation has to say about a script goes into a log. A log knows
  the switches of its compilation: under them a warning or a message becomes a
  fatal error when it enters the log, so that counts always speak of effective
  levels.
-/

namespace StateScript

/-- How grave a diagnostic is, from the least to the gravest. -/
inductive Level where
  | message
  | warning
  | error
  | fatal
deriving DecidableEq, Inhabited

namespace Level

/-- Spelling in human-readable diagnostics. -/
def name : Level → String
  | .message => "message"
  | .warning => "warning"
  | .error => "error"
  | .fatal => "fatal error"

/-- Spelling in JSON diagnostics. -/
def key : Level → String
  | .message => "message"
  | .warning => "warning"
  | .error => "error"
  | .fatal => "fatal_error"

/-- Errors and fatal errors both spoil the result. -/
def isError : Level → Bool
  | .error | .fatal => true
  | _ => false

end Level

/-- What a diagnostic is about. -/
inductive Code where
  -- found while splitting a text into tokens
  | invalidCharacter
  | unfinishedStringLiteral
  | invalidEscapeSequence
  | malformedDataTypeSpecifier
  | malformedNumber
  | unfinishedComment
  -- found while reading the grammar
  | unexpectedToken
  | expectingToken
  | expectingExpression
  | unexpectedEndOfFile
  -- found while checking meanings
  | undeclaredSymbol
  | invalidFunction
  | invalidCast
  | invalidOperator
  | invalidScope
  | duplicateSymbol
  | invalidIndex
  | illegalAssignment
  | missingDefaultState
  | duplicateDefaultState
  | invalidFlags
  | invalidParameter
  | invalidReturn
  | invalidBreak
  | invalidContinue
  | invalidLabel
  | invalidState
  | invalidIndexer
  | nestedLock
  | nestedAtom
  | invalidLiteral
  | unsupportedDirective
  | unusedSymbol
  | implicitCast
  -- the walks disagree, or a bound was exceeded
  | internalError
deriving DecidableEq, Inhabited

namespace Code

/-- Every code, in order of declaration. -/
def all : List Code :=
  [.invalidCharacter, .unfinishedStringLiteral, .invalidEscapeSequence,
   .malformedDataTypeSpecifier, .malformedNumber, .unfinishedComment, .unexpectedToken,
   .expectingToken, .expectingExpression, .unexpectedEndOfFile, .undeclaredSymbol,
   .invalidFunction, .invalidCast, .invalidOperator, .invalidScope, .duplicateSymbol,
   .invalidIndex, .illegalAssignment, .missingDefaultState, .duplicateDefaultState,
   .invalidFlags, .invalidParameter, .invalidReturn, .invalidBreak, .invalidContinue,
   .invalidLabel, .invalidState, .invalidIndexer, .nestedLock, .nestedAtom, .invalidLiteral,
   .unsupportedDirective, .unusedSymbol, .implicitCast, .internalError]

/-- Spelling of a code in diagnostics. -/
def name : Code → String
  | .invalidCharacter => "InvalidCharacter"
  | .unfinishedStringLiteral => "UnfinishedStringLiteral"
  | .invalidEscapeSequence => "InvalidEscapeSequence"
  | .malformedDataTypeSpecifier => "MalformedDataTypeSpecifier"
  | .malformedNumber => "MalformedNumber"
  | .unfinishedComment => "UnfinishedComment"
  | .unexpectedToken => "UnexpectedToken"
  | .expectingToken => "ExpectingToken"
  | .expectingExpression => "ExpectingExpression"
  | .unexpectedEndOfFile => "UnexpectedEndOfFile"
  | .undeclaredSymbol => "UndeclaredSymbol"
  | .invalidFunction => "InvalidFunction"
  | .invalidCast => "InvalidCast"
  | .invalidOperator => "InvalidOperator"
  | .invalidScope => "InvalidScope"
  | .duplicateSymbol => "DuplicateSymbol"
  | .invalidIndex => "InvalidIndex"
  | .illegalAssignment => "IllegalAssignment"
  | .missingDefaultState => "MissingDefaultState"
  | .duplicateDefaultState => "DuplicateDefaultState"
  | .invalidFlags => "InvalidFlags"
  | .invalidParameter => "InvalidParameter"
  | .invalidReturn => "InvalidReturn"
  | .invalidBreak => "InvalidBreak"
  | .invalidContinue => "InvalidContinue"
  | .invalidLabel => "InvalidLabel"
  | .invalidState => "InvalidState"
  | .invalidIndexer => "InvalidIndexer"
  | .nestedLock => "NestedLock"
  | .nestedAtom => "NestedAtom"
  | .invalidLiteral => "InvalidLiteral"
  | .unsupportedDirective => "UnsupportedDirective"
  | .unusedSymbol => "UnusedSymbol"
  | .implicitCast => "ImplicitCast"
  | .internalError => "InternalError"

end Code

/-- One finding with the position it is about. -/
structure Diagnostic where
  code : Code
  message : String
  level : Level
  line : Nat
  offset : Nat
  file : String
deriving DecidableEq, Inhabited

namespace Diagnostic

/-- The human-readable form, on one line. -/
def render (d : Diagnostic) : String :=
  s!"{d.file}:{d.line}:{d.offset}: {d.level.name}[{d.code.name}]: {d.message}"

/-- The same as a JSON object, on one line. -/
def renderJson (d : Diagnostic) : String :=
  String.singleton '{' ++ "\"code\":\"" ++ d.code.name ++ "\",\"message\":" ++
    Text.json d.message ++ ",\"level\":\"" ++ d.level.key ++
    s!"\",\"line\":{d.line},\"offset\":{d.offset},\"file\":" ++ Text.json d.file ++
    String.singleton '}'

end Diagnostic

/-- The findings of one compilation, in order. -/
structure Log where
  flags : Flags
  items : List Diagnostic := []
deriving DecidableEq, Inhabited

namespace Log

/-- The level that a finding gets under the switches of the log. -/
def escalate (flags : Flags) : Level → Level
  | .warning => if flags.warningsFatal then .fatal else .warning
  | .message => if flags.messagesFatal then .fatal else .message
  | level => level

/-- Adds a finding at its effective level. -/
def push (log : Log) (d : Diagnostic) : Log :=
  { log with items := log.items ++ [{ d with level := escalate log.flags d.level }] }

/-- Adds findings one after the other. -/
def pushAll (log : Log) (ds : List Diagnostic) : Log := ds.foldl push log

/-! ### Counts -/

def errorCount (log : Log) : Nat := log.items.countP fun d => d.level.isError

def warningCount (log : Log) : Nat := log.items.countP fun d => d.level == .warning

def messageCount (log : Log) : Nat := log.items.countP fun d => d.level == .message

def hasErrors (log : Log) : Bool := log.items.any fun d => d.level.isError

def hasFatal (log : Log) : Bool := log.items.any fun d => d.level == .fatal

/-- How many findings carry a code. -/
def countCode (log : Log) (code : Code) : Nat := log.items.countP fun d => d.code == code

/-- One line that sums up a log. -/
def summary (log : Log) : String :=
  s!"{log.errorCount} error(s), {log.warningCount} warning(s), {log.messageCount} message(s)"

@[simp] theorem flags_push (log : Log) (d : Diagnostic) : (log.push d).flags = log.flags := rfl

@[simp] theorem flags_pushAll (log : Log) (ds : List Diagnostic) :
    (log.pushAll ds).flags = log.flags := by
  unfold pushAll
  induction ds generalizing log with
  | nil => rfl
  | cons d ds ih => rw [List.foldl_cons, ih, flags_push]

theorem items_pushAll (log : Log) (ds : List Diagnostic) : (log.pushAll ds).items =
    log.items ++ ds.map fun d => { d with level := escalate log.flags d.level } := by
  unfold pushAll
  induction ds generalizing log with
  | nil => simp
  | cons d ds ih =>
    rw [List.foldl_cons, ih, flags_push]
    simp [push]

/-- Escalation has no effect on what it returned. -/
@[simp] theorem escalate_escalate (flags : Flags) (level : Level) :
    escalate flags (escalate flags level) = escalate flags level := by
  rcases flags with ⟨_, _, w, m, _⟩
  cases level <;> cases w <;> cases m <;> rfl

end Log

end StateScript
