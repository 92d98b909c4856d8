import Seahorse.Failure
import Seahorse.Target

/-!
# Levels

A level is data: where the run starts, where the seahorse may be, what there is to collect, what is
asked for, and when the level counts as solved. All levels are played by the same rules.
-/

namespace Seahorse

/-- When a level counts as solved (`CompletionRule`). -/
inductive Completion where
  /-- The objective is performed and the whole program is executed. -/
  | objective
  /-- The objective is performed and every required target is collected. -/
  | objectiveAndTargets
  /-- Every required target is collected. -/
  | targetsOnly
  deriving DecidableEq, Repr

namespace Completion

/-- Whether the level counts as solved. -/
def isMet (rule : Completion) (objectiveSatisfied targetsCollected programDone : Bool) : Bool :=
  match rule with
  | .objective => objectiveSatisfied && programDone
  | .objectiveAndTargets => objectiveSatisfied && targetsCollected
  | .targetsOnly => targetsCollected

/-- The name in JSON. -/
def name : Completion → String
  | .objective => "objective"
  | .objectiveAndTargets => "objective_and_targets"
  | .targetsOnly => "targets_only"

end Completion

/-- A level (`LevelConfig`). -/
structure Level where
  /-- The id it is looked up by. -/
  id : String
  /-- The title it is shown with. -/
  title : String
  /-- How far one step goes. -/
  stepDistance : Scalar
  /-- The pose at the start of a run. -/
  start : Pose
  /-- Where the seahorse may be. -/
  area : Area
  /-- What there is to collect. -/
  targets : List Target
  /-- What is asked for. -/
  objective : Objective
  /-- When the level counts as solved. -/
  completion : Completion
  deriving DecidableEq, Repr

namespace Level

/-- Whether a target is required. -/
def hasRequiredTarget (level : Level) : Bool :=
  level.targets.any (·.required)

/-- What is wrong with the completion rule: a rule that waits for targets needs one. -/
def completionFault? (level : Level) : Option Fault :=
  match level.completion with
  | .targetsOnly => if level.hasRequiredTarget then none else some .noTargetForTargetsOnly
  | .objectiveAndTargets =>
    if level.hasRequiredTarget then none else some .noTargetForObjectiveAndTargets
  | .objective => none

/-- What is wrong with the stage at which a walkway turns. -/
def turnFault? (level : Level) : Option Fault :=
  match level.area with
  | .walkway w => if level.objective.length ≤ w.turnStage then some .turnStage else none
  | .platform .. => none

/-- The first thing that is wrong with a level. -/
def fault? (level : Level) : Option Fault :=
  [ level.objective.fault?.map .objective,
    if level.stepDistance.isFinite && 0 < level.stepDistance then none else some .stepDistance,
    (level.targets.find? fun t => !t.hasProperRadius).map fun t => .radius t.name,
    if level.start.x.isFinite && level.start.z.isFinite && level.start.heading.isFinite then none
    else some .infiniteStart,
    level.completionFault?,
    level.area.fault?.map .area,
    level.turnFault?,
    if level.area.allows level.start.position 0 then none else some .illegalStart
  ].findSome? fun found => found

/-- Refuses a level that cannot be played. -/
def validate (level : Level) : Except Failure Unit :=
  match level.fault? with
  | none => .ok ()
  | some fault => .error (.invalidLevel level.id fault)

end Level

end Seahorse
