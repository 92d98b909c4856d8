import Seahorse.Level.Fault

/-!
# Failures

Why an operation was refused. Running into the edge of the legal area is not a failure: it is an
outcome of the run.
-/

namespace Seahorse

/-- Why an operation was refused. -/
inductive Failure where
  /-- The level with this id cannot be played. -/
  | invalidLevel (id : String) (fault : Level.Fault)
  /-- A run is still going on. -/
  | runInProgress
  /-- No built-in level has this id. -/
  | unknownLevel (id : String)
  /-- No command has this name. -/
  | unknownCommand (name : String)
  /-- A text does not hold a value of the wanted kind. -/
  | unreadable
  deriving DecidableEq, Repr

/-- The text of a failure. -/
def Failure.message : Failure → String
  | .invalidLevel id fault => s!"invalid level config: {id}: {fault.message}"
  | .runInProgress => "a run is already in progress"
  | .unknownLevel id => s!"unknown level '{id}'"
  | .unknownCommand name => s!"unknown command '{name}'"
  | .unreadable => "parse error"

end Seahorse
