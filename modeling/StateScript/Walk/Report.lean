import StateScript.Walk.State

/-! # Reports

  Findings are logged at the position of a token; beyond the last token, at the last.
  Which walk reports what is settled here, so that everything is reported once: faults
  in declarations by the first walk, all other faults by the second. Both walks abandon
  the statement at fault, which keeps them on the same path.
-/

namespace StateScript.Walk

/-- A place in a source file. -/
structure Location where
  line : Nat
  offset : Nat
  file : String
deriving DecidableEq

/-- The place of a token. -/
def State.location (s : State) (index : Nat) : Location :=
  match s.tokens[index]? <|> s.tokens.back? with
  | some t => ⟨t.line, t.offset, t.file⟩
  | none => ⟨0, 0, ""⟩

/-- Logs a finding. One that counts as fatal ends the compilation. -/
def reportAt (index : Nat) (code : Code) (level : Level) (message : String) : Walk Unit := fun s =>
  let ⟨line, offset, file⟩ := s.location index
  let isFatal := Log.escalate s.log.flags level == .fatal
  let s := { s with log := s.log.push { code, message, level, line, offset, file } }
  if isFatal then .error .fatal s else .ok () s

/-- Abandons the statement because of a token. The second walk reports it. -/
def errorAt {α : Type} (index : Nat) (code : Code) (message : String) : Walk α := do
  if ← emitting then reportAt index code .error message
  throw .abandoned

/-- Abandons the statement because of the next token. -/
@[reducible] def errorHere {α : Type} (code : Code) (message : String) : Walk α := do
  errorAt (← position) code message

/-- What the first walk alone does. -/
def declaring (x : Walk Unit) : Walk Unit := do
  if !(← emitting) then x

/-- Marks a declaration as refused. The first walk reports it. -/
def refuse (index : Nat) (code : Code) (message : String) : Walk Unit := do
  unless ← emitting do
    change fun s => { s with rejected := index :: s.rejected }
    reportAt index code .error message

/-- Refuses a declaration and abandons its statement. -/
def reject {α : Type} (index : Nat) (code : Code) (message : String) : Walk α := do
  refuse index code message
  throw .abandoned

@[reducible] def isRejected (index : Nat) : Walk Bool := view (·.rejected.contains index)

/-- Ends the compilation because of the next token. -/
@[reducible] def fatal {α : Type} (code : Code) (message : String) : Walk α := do
  reportAt (← position) code .fatal message
  throw .fatal

/-- Lets the second walk log something less than an error at the last token taken. -/
@[reducible] def notify (code : Code) (level : Level) (message : String) : Walk Unit := do
  if ← emitting then reportAt ((← position) - 1) code level message

end StateScript.Walk
