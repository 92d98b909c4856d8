import Seahorse.Scalar
import Seahorse.Text.Case

/-!
# Settings

What a player can choose: the pace of a run and the delays of what is shown.
-/

namespace Seahorse

/-- How fast a program is executed (`PacingPreset`). -/
inductive Pace where
  /-- One and a half times the usual interval. -/
  | slow
  /-- The usual interval. -/
  | normal
  /-- Half the usual interval. -/
  | fast
  deriving DecidableEq, Repr

namespace Pace

/-- All paces. -/
def all : List Pace :=
  [.slow, .normal, .fast]

/-- The name of a pace. -/
def name : Pace → String
  | .slow => "Slow"
  | .normal => "Normal"
  | .fast => "Fast"

/-- The pace that a player means, in any case of letters. -/
def parse? (text : String) : Option Pace :=
  match String.ofList (text.toList.map Text.lower) with
  | "slow" => some .slow
  | "normal" | "default" => some .normal
  | "fast" => some .fast
  | _ => none

/-- The usual seconds between two commands. -/
def usualInterval : Scalar := 1.2

/-- The seconds between two commands. -/
def interval : Pace → Scalar
  | .slow => usualInterval * 1.5
  | .normal => usualInterval
  | .fast => usualInterval * 0.5

end Pace

/-- What a player has chosen. -/
structure Settings where
  /-- The pace of a run. -/
  pace : Pace
  /-- The seconds before it is shown that a level is solved. -/
  completionDelay : Scalar
  /-- The seconds that a message stays. -/
  messageDuration : Scalar
  /-- Whether nothing should move that need not. -/
  reducedMotion : Bool
  deriving DecidableEq, Repr

namespace Settings

/-- The completion delay of settings that give none. -/
def defaultCompletionDelay : Scalar := 1

/-- The message duration of settings that give none. -/
def defaultMessageDuration : Scalar := 3

/-- The default settings at a pace. -/
def ofPace (pace : Pace) : Settings :=
  ⟨pace, defaultCompletionDelay, defaultMessageDuration, false⟩

/-- The default settings. -/
def default : Settings :=
  ofPace .normal

/-- The seconds between two commands. -/
def interval (s : Settings) : Scalar :=
  s.pace.interval

/-- The completion delay in effect: none with reduced motion, and never a negative one. -/
def effectiveDelay (s : Settings) : Scalar :=
  if s.reducedMotion then 0 else Scalar.max s.completionDelay 0

/-- The completion delay in effect, in milliseconds. -/
def delayMillis (s : Settings) : Double :=
  s.effectiveDelay.toDouble * 1000

/-- The message duration in milliseconds. -/
def messageMillis (s : Settings) : Double :=
  s.messageDuration.toDouble * 1000

end Settings

end Seahorse
