import Seahorse.Command

/-!
# Objectives

The sequence of commands that a level asks for, as groups of equal commands.
-/

namespace Seahorse

/-- A command and how often it is asked for in a row (`CommandGroup`). -/
structure Group where
  /-- The command. -/
  command : Command
  /-- How often it is asked for. -/
  count : UInt32
  deriving DecidableEq, Repr

/-- The groups that a level asks for, in order (`ObjectiveSpec`). -/
structure Objective where
  /-- The groups. -/
  groups : List Group
  deriving DecidableEq, Repr

namespace Objective

/-- The number of groups. -/
def length (o : Objective) : Nat :=
  o.groups.length

/-- What can be wrong with an objective. -/
inductive Fault where
  /-- There is no group. -/
  | empty
  /-- The group at this index asks for nothing. -/
  | zeroCount (index : Nat)
  /-- A group asks for waiting. -/
  | wait
  deriving DecidableEq, Repr

/-- The text of a fault. -/
def Fault.message : Fault → String
  | .empty => "objective must contain at least one command group"
  | .zeroCount index => s!"objective group {index} has a zero repeat count"
  | .wait => "objective groups cannot require wait"

/-- What is wrong with an objective. -/
def fault? (o : Objective) : Option Fault :=
  if o.groups.isEmpty then some .empty
  else
    match o.groups.findIdx? (·.count == 0) with
    | some index => some (.zeroCount index)
    | none => if o.groups.any (·.command == .wait) then some .wait else none

end Objective

end Seahorse
