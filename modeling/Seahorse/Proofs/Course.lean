import Seahorse.Level.Builtin
import Seahorse.Proofs.Matching

/-!
# The course of a program

What a list of commands leads to on a level, said without running it: the pose at the end, the
points visited on the way, the targets that have come into range, and the matcher. Whether a command
may be taken plays no role here. A run is later shown to agree with the course of the commands it
has taken.
-/

namespace Seahorse.Level

/-! ## Levels that can be played -/

/-- A level is accepted exactly when all its parts are. -/
theorem validate_eq_ok_iff {level : Level} :
    level.validate = .ok () ↔
      level.objective.fault? = none ∧
      (level.stepDistance.isFinite && 0 < level.stepDistance) = true ∧
      (∀ t ∈ level.targets, t.hasProperRadius) ∧
      (level.start.x.isFinite && level.start.z.isFinite && level.start.heading.isFinite) = true ∧
      level.completionFault? = none ∧ level.area.fault? = none ∧ level.turnFault? = none ∧
      level.area.allows level.start.position 0 := by
  have hok : level.validate = .ok () ↔ level.fault? = none := by
    unfold validate
    cases level.fault? <;> simp
  rw [hok, fault?, List.findSome?_eq_none_iff]
  simp [and_assoc]

/-- The built-in levels can be played. -/
theorem validate_builtin : ∀ level ∈ builtins, level.validate = .ok () := by
  intro level hmem
  rw [validate_eq_ok_iff]
  revert level
  decide +kernel

section Playable

variable {level : Level} (h : level.validate = .ok ())
include h

theorem objective_isPlayable : level.objective.IsPlayable :=
  Objective.fault?_eq_none_iff.mp (validate_eq_ok_iff.mp h).1

/-- A walkway turns before the objective is performed. -/
theorem turnStage_lt {w : Walkway} (hw : level.area = .walkway w) :
    w.turnStage < level.objective.length := by
  obtain ⟨-, -, -, -, -, -, hturn, -⟩ := validate_eq_ok_iff.mp h
  simpa [turnFault?, hw] using hturn

/-- A level starts on legal ground. -/
theorem allows_start : level.area.allows level.start.position 0 = true := by
  obtain ⟨-, -, -, -, -, -, -, hstart⟩ := validate_eq_ok_iff.mp h
  exact hstart

end Playable

/-! ## Where commands lead -/

/-- The pose after commands from the start of the level. -/
def poseAfter (level : Level) (cs : Program) : Pose :=
  cs.foldl (fun pose c => pose.step c level.stepDistance) level.start.wrapped

/-- The positions after each of the commands. The start is not among them. -/
def visits (level : Level) (cs : Program) : List Point :=
  (List.range cs.length).map fun i => (level.poseAfter (cs.take (i + 1))).position

/-- Whether the commands bring a target into range. -/
def reaches (level : Level) (cs : Program) (t : Target) : Bool :=
  (level.visits cs).any t.inRange

/-- The targets after commands: those of the level, collected when they have come into range. -/
def targetsAfter (level : Level) (cs : Program) : List Target :=
  level.targets.map fun t => { t with collected := level.reaches cs t }

/-- The matcher after commands. -/
def matcherAfter (level : Level) (cs : Program) : Matcher :=
  Matcher.start.feedAll level.objective cs

/-- Looking at the first command, the first two and so on up to all of them: one more command at the
end adds one more look. -/
theorem map_range_take_concat {β : Type} (f : Program → β) (cs : Program) (c : Command) :
    (List.range (cs ++ [c]).length).map (fun i => f ((cs ++ [c]).take (i + 1))) =
      (List.range cs.length).map (fun i => f (cs.take (i + 1))) ++ [f (cs ++ [c])] := by
  rw [List.length_append, List.length_singleton, List.range_succ, List.map_append]
  congr 1
  · refine List.map_congr_left fun i hi => ?_
    rw [List.take_append_of_le_length (List.mem_range.mp hi)]
  · rw [List.map_singleton, List.take_of_length_le (by simp)]

section Concat

variable (level : Level) (cs : Program) (c : Command)

/-- One more command is one more step. -/
theorem poseAfter_concat :
    level.poseAfter (cs ++ [c]) = (level.poseAfter cs).step c level.stepDistance := by
  simp [poseAfter]

/-- One more command is fed to the matcher. -/
theorem matcherAfter_concat :
    level.matcherAfter (cs ++ [c]) = ((level.matcherAfter cs).feed level.objective c).2 :=
  Matcher.feedAll_concat _ _ _ _

theorem visits_concat :
    level.visits (cs ++ [c]) = level.visits cs ++ [(level.poseAfter (cs ++ [c])).position] :=
  map_range_take_concat (fun cs => (level.poseAfter cs).position) cs c

/-- A target is reached by one more command if it was before, or lies in range of the pose after it.
-/
theorem reaches_concat (t : Target) :
    level.reaches (cs ++ [c]) t =
      (level.reaches cs t || t.inRange (level.poseAfter (cs ++ [c])).position) := by
  simp [reaches, visits_concat]

/-- One more command visits the targets once more. -/
theorem targetsAfter_concat :
    level.targetsAfter (cs ++ [c]) =
      (level.targetsAfter cs).map (Target.visited (level.poseAfter (cs ++ [c])).position) := by
  simp only [targetsAfter, List.map_map, reaches_concat]
  rfl

end Concat

/-- What has been collected is what has been reached, in the order of the level. -/
theorem collectedNames_targetsAfter (level : Level) (cs : Program) :
    Target.collectedNames (level.targetsAfter cs) =
      (level.targets.filter (level.reaches cs)).map (·.name) := by
  unfold Target.collectedNames targetsAfter
  rw [List.filter_map, List.map_map]
  rfl

theorem allRequiredCollected_targetsAfter (level : Level) (cs : Program) :
    Target.allRequiredCollected (level.targetsAfter cs) =
      level.targets.all fun t => !t.required || level.reaches cs t := by
  unfold Target.allRequiredCollected targetsAfter
  rw [List.all_map]
  rfl

end Seahorse.Level
