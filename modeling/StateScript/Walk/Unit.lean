import StateScript.Walk.Link
import StateScript.Walk.Statement

/-! # A whole script

  Both walks over all tokens, the return that ends the code outside of functions, the
  checks on the unit, and its linking, which takes place only if nothing is at fault.
-/

namespace StateScript.Walk

/-- Starts a walk at the first token. What the earlier walk has declared stays. -/
def State.begin (s : State) (pass : Pass) : State :=
  { s with
    pass
    pos := 0
    scope := globalScope
    function := globalScope
    loops := []
    blocks := []
    regions := {}
    metadata := []
    localCount := 0 }

/-- Statements up to the last token. -/
@[reducible] def statements : Walk Unit :=
  loop () fun _ => do
    if ← atEnd then return .done ()
    else
      statement
      return .again ()

def walkOver (pass : Pass) : Walk Unit := do
  change (·.begin pass)
  statements

/-- A program has to say in which state it starts; a library does not. -/
def checkDefaultState : Walk Unit := do
  if (← view (·.engineState)).isNone && !(← view (·.flags.library)) then
    reportAt ((← tokenCount) - 1) .missingDefaultState .error
      "no default engine state declared (use 'state engine Name { ... }')"

/-- Compiles and links a script; nothing if there were errors. -/
def unit (defines : List Define) : Walk (Option Object) := do
  walkOver .declare
  walkOver .emit
  emit .ret []
  checkDefaultState
  if ← view (·.log.hasErrors) then return none
  else return some (← link defines)

end StateScript.Walk
