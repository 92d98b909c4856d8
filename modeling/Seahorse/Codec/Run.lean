import Seahorse.Codec.Level
import Seahorse.Run

/-!
# Runs in JSON

What a host is told about a run: phases, matchers, events and outcomes.
-/

namespace Seahorse

namespace Phase

/-- The JSON value of a phase. -/
def toJson (p : Phase) : Json :=
  .string p.name

/-- The phase that a JSON value stands for. -/
def ofJson? : Json → Option Phase :=
  Json.oneOf? all name false

end Phase

namespace Matcher

/-- The JSON value of a matcher. -/
def toJson (m : Matcher) : Json :=
  .object
    [("stage", .ofNat m.stage), ("count_in_stage", .ofNat m.countInStage.toNat),
     ("derailed", .bool m.derailed), ("peak_stage", .ofNat m.peakStage)]

/-- The matcher that a JSON value stands for. -/
def ofJson? (j : Json) : Option Matcher :=
  match j.slots? ["stage", "count_in_stage", "derailed", "peak_stage"] with
  | some [stage, countInStage, derailed, peakStage] => do
    let stage ← Json.required Json.index? stage
    let countInStage ← Json.required Json.word32? countInStage
    let derailed ← Json.required Json.bool? derailed
    let peakStage ← Json.required Json.index? peakStage
    some ⟨stage, countInStage, derailed, peakStage⟩
  | _ => none

end Matcher

/-- The JSON value of a list of names. -/
def Json.ofNames (names : List String) : Json :=
  .array (names.map .string)

namespace Event

/-- The JSON value of an event. -/
def toJson : Event → Json
  | .started commands => .object [("type", .string "started"), ("commands", .ofNat commands)]
  | .moved command pose =>
    .object [("type", .string "moved"), ("command", command.toJson), ("pose", pose.toJson)]
  | .captured name => .object [("type", .string "target_captured"), ("name", .string name)]
  | .objectiveSatisfied => .object [("type", .string "objective_satisfied")]
  | .aborted reason message =>
    .object [("type", .string "aborted"), ("reason", reason.toJson), ("message", .string message)]
  | .completed collected =>
    .object [("type", .string "completed"), ("collected", .ofNames collected)]
  | .exhausted => .object [("type", .string "exhausted")]

/-- The event with a tag and a body. -/
def ofTagged? (tag : String) (body : Json) : Option Event :=
  match tag with
  | "started" =>
    match body.slots? ["commands"] with
    | some [commands] => (Json.required Json.index? commands).map .started
    | _ => none
  | "moved" =>
    match body.slots? ["command", "pose"] with
    | some [command, pose] => do
      let command ← Json.required (Command.ofJson? true) command
      let pose ← Json.required Pose.ofJson? pose
      some (.moved command pose)
    | _ => none
  | "target_captured" =>
    match body.slots? ["name"] with
    | some [name] => (Json.required Json.string? name).map .captured
    | _ => none
  | "objective_satisfied" => (body.slots? []).map fun _ => .objectiveSatisfied
  | "aborted" =>
    match body.slots? ["reason", "message"] with
    | some [reason, message] => do
      let reason ← Json.required (Violation.ofJson? true) reason
      let message ← Json.required Json.string? message
      some (.aborted reason message)
    | _ => none
  | "completed" =>
    match body.slots? ["collected"] with
    | some [collected] => (Json.required (Json.list? Json.string?) collected).map .completed
    | _ => none
  | "exhausted" => (body.slots? []).map fun _ => .exhausted
  | _ => none

/-- The event that a JSON value stands for. -/
def ofJson? (j : Json) : Option Event :=
  if j.holdable Json.maxDepth then
    (j.tagged? "type").bind fun (tag, body) => ofTagged? tag body
  else none

end Event

namespace Outcome

/-- The JSON value of an outcome. -/
def toJson : Outcome → Json
  | .continued pose => .object [("status", .string "continue"), ("pose", pose.toJson)]
  | .aborted reason pose =>
    .object [("status", .string "aborted"), ("reason", reason.toJson), ("pose", pose.toJson)]
  | .completed pose collected =>
    .object
      [("status", .string "completed"), ("pose", pose.toJson), ("collected", .ofNames collected)]
  | .exhausted pose => .object [("status", .string "exhausted"), ("pose", pose.toJson)]

/-- The outcome with a tag and a body. -/
def ofTagged? (tag : String) (body : Json) : Option Outcome :=
  match tag with
  | "continue" =>
    match body.slots? ["pose"] with
    | some [pose] => (Json.required Pose.ofJson? pose).map .continued
    | _ => none
  | "aborted" =>
    match body.slots? ["reason", "pose"] with
    | some [reason, pose] => do
      let reason ← Json.required (Violation.ofJson? true) reason
      let pose ← Json.required Pose.ofJson? pose
      some (.aborted reason pose)
    | _ => none
  | "completed" =>
    match body.slots? ["pose", "collected"] with
    | some [pose, collected] => do
      let pose ← Json.required Pose.ofJson? pose
      let collected ← Json.required (Json.list? Json.string?) collected
      some (.completed pose collected)
    | _ => none
  | "exhausted" =>
    match body.slots? ["pose"] with
    | some [pose] => (Json.required Pose.ofJson? pose).map .exhausted
    | _ => none
  | _ => none

/-- The outcome that a JSON value stands for. -/
def ofJson? (j : Json) : Option Outcome :=
  if j.holdable Json.maxDepth then
    (j.tagged? "status").bind fun (tag, body) => ofTagged? tag body
  else none

end Outcome

end Seahorse
