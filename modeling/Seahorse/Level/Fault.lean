import Seahorse.Area
import Seahorse.Objective

/-!
# What can be wrong with a level
-/

namespace Seahorse.Level

/-- Why a level cannot be played. -/
inductive Fault where
  /-- The objective is at fault. -/
  | objective (fault : Objective.Fault)
  /-- The step distance is not positive and finite. -/
  | stepDistance
  /-- The radius of the target with this name is not positive and finite. -/
  | radius (target : String)
  /-- The start is not finite. -/
  | infiniteStart
  /-- Collecting the targets solves the level, and none is required. -/
  | noTargetForTargetsOnly
  /-- Solving the level takes the targets too, and none is required. -/
  | noTargetForObjectiveAndTargets
  /-- The area is at fault. -/
  | area (fault : Area.Fault)
  /-- The walkway turns at a stage that the objective does not have. -/
  | turnStage
  /-- The start is outside the area. -/
  | illegalStart
  deriving DecidableEq, Repr

/-- The text of a fault. -/
def Fault.message : Fault → String
  | .objective fault => fault.message
  | .stepDistance => "step distance must be positive"
  | .radius target => s!"target '{target}' radius must be positive"
  | .infiniteStart => "start pose must be finite"
  | .noTargetForTargetsOnly => "targets-only completion needs a required target"
  | .noTargetForObjectiveAndTargets => "objective-and-targets completion needs a required target"
  | .area fault => fault.message
  | .turnStage => "path turn stage is past the last objective group"
  | .illegalStart => "start pose violates the level constraint"

end Seahorse.Level
