import Seahorse.Objective

/-!
# Following an objective

A matcher follows the commands of a run and says how much of the objective they have performed. Waits
do not count. One command that is not the one asked for breaks the sequence for the rest of the run;
the furthest stage reached is remembered all the same.
-/

namespace Seahorse

/-- How far a run has come (`MatcherState`). -/
structure Matcher where
  /-- The number of groups performed, which is the index of the current one. -/
  stage : Nat
  /-- How often the command of the current group has been given. -/
  countInStage : UInt32
  /-- Whether the sequence has been broken. -/
  derailed : Bool
  /-- The furthest stage reached. -/
  peakStage : Nat
  deriving DecidableEq, Repr

/-- What one command did to a matcher. -/
inductive Progress where
  /-- Nothing. -/
  | unchanged
  /-- It counted toward the current group. -/
  | advanced
  /-- It completed the last group. -/
  | satisfied
  /-- It broke the sequence. -/
  | reset
  deriving DecidableEq, Repr

namespace Progress

/-- The name of a progress. -/
def title : Progress → String
  | .unchanged => "Unchanged"
  | .advanced => "Advanced"
  | .satisfied => "Satisfied"
  | .reset => "Reset"

end Progress

namespace Matcher

/-- The matcher at the start of a run. -/
def start : Matcher := ⟨0, 0, false, 0⟩

/-- Whether all groups have been performed. -/
def isSatisfied (m : Matcher) (o : Objective) : Bool :=
  o.length ≤ m.stage

/-- The matcher after the sequence was broken. -/
def derail (m : Matcher) : Matcher :=
  { start with derailed := true, peakStage := m.peakStage }

/-- The matcher after one more command of the current group `g`. -/
def count (m : Matcher) (g : Group) : Matcher :=
  if g.count ≤ m.countInStage + 1 then
    { m with stage := m.stage + 1, countInStage := 0, peakStage := max m.peakStage (m.stage + 1) }
  else { m with countInStage := m.countInStage + 1 }

/-- Feeds one command to a matcher. There is no current group once the objective is satisfied. -/
def feed (o : Objective) (m : Matcher) (command : Command) : Progress × Matcher :=
  if command = .wait || m.derailed then (.unchanged, m)
  else
    match o.groups[m.stage]? with
    | none => (.unchanged, m)
    | some g =>
      if command = g.command then
        let m := m.count g
        (if m.isSatisfied o then .satisfied else .advanced, m)
      else (.reset, m.derail)

end Matcher

end Seahorse
