/-!
# Commands

The instructions that a player's program is made of.
-/

namespace Seahorse

/-- One instruction of a program. -/
inductive Command where
  /-- Swim one step along the heading. -/
  | forward
  /-- Swim one step against the heading. -/
  | backward
  /-- Turn a quarter to the left. -/
  | turnLeft
  /-- Turn a quarter to the right. -/
  | turnRight
  /-- Turn half around. -/
  | turnAround
  /-- Do nothing for one tick. -/
  | wait
  deriving DecidableEq, Repr

/-- A player's program. -/
abbrev Program := List Command

namespace Command

/-- All commands. -/
def all : List Command :=
  [.forward, .backward, .turnLeft, .turnRight, .turnAround, .wait]

/-- The name of a command in programs and in JSON. -/
def name : Command → String
  | .forward => "forward"
  | .backward => "backward"
  | .turnLeft => "turnLeft"
  | .turnRight => "turnRight"
  | .turnAround => "turnAround"
  | .wait => "wait"

/-- The name of a command in the journal. -/
def title : Command → String
  | .forward => "Forward"
  | .backward => "Backward"
  | .turnLeft => "TurnLeft"
  | .turnRight => "TurnRight"
  | .turnAround => "TurnAround"
  | .wait => "Wait"

/-- Whether a command changes the position, and not only the heading. -/
def isStep : Command → Bool
  | .forward | .backward => true
  | _ => false

end Command

end Seahorse
