import Seahorse.Json.Reader
import Seahorse.Json.Record
import Seahorse.Json.Writer
import Seahorse.Level

/-!
# Levels in JSON

For every part of a level, what it is written as (`toJson`) and how it is read (`ofJson?`). Writing
has one form: all fields in their order, defaults included, the tag of a choice first. Reading takes
any form of a record. What belongs to a run, whether a target is collected, is not part of a level
and is neither written nor read.
-/

namespace Seahorse

/-- The value that a text stands for, for a reader of JSON. -/
def Json.decode? (ofJson? : Json → Option α) (text : String) : Option α :=
  (Json.read? text).bind ofJson?

/-- The one of some choices without data that a JSON value names. -/
def Json.oneOf? (choices : List α) (name : α → String) (held : Bool) (j : Json) : Option α :=
  (j.choice? held).bind fun s => choices.find? (name · = s)

namespace Command

/-- The JSON value of a command. -/
def toJson (c : Command) : Json :=
  .string c.name

/-- The command that a JSON value stands for; see `Json.choice?` about `held`. -/
def ofJson? (held : Bool) : Json → Option Command :=
  Json.oneOf? all name held

end Command

namespace Program

/-- The JSON value of a program. -/
def toJson (p : Program) : Json :=
  .array (p.map Command.toJson)

/-- The program that a JSON value stands for. -/
def ofJson? : Json → Option Program :=
  Json.list? (Command.ofJson? false)

end Program

namespace Pose

/-- The JSON value of a pose. -/
def toJson (p : Pose) : Json :=
  .object [("x", .ofScalar p.x), ("z", .ofScalar p.z), ("heading", .ofScalar p.heading)]

/-- The pose that a JSON value stands for. The heading is taken as it is. -/
def ofJson? (j : Json) : Option Pose :=
  match j.slots? ["x", "z", "heading"] with
  | some [x, z, heading] => do
    let x ← Json.required Json.scalar? x
    let z ← Json.required Json.scalar? z
    let heading ← Json.required Json.scalar? heading
    some ⟨x, z, heading⟩
  | _ => none

end Pose

namespace Point

/-- The JSON value of a point, a pair. -/
def toJson (p : Point) : Json :=
  .array [.ofScalar p.x, .ofScalar p.z]

/-- The point that a JSON value stands for. -/
def ofJson? : Json → Option Point
  | .array [x, z] => do
    let x ← x.scalar?
    let z ← z.scalar?
    some ⟨x, z⟩
  | _ => none

end Point

namespace Span

/-- The JSON value of a span. -/
def toJson (s : Span) : Json :=
  .object [("min", .ofScalar s.low), ("max", .ofScalar s.high)]

/-- The span that a JSON value stands for. -/
def ofJson? (j : Json) : Option Span :=
  match j.slots? ["min", "max"] with
  | some [low, high] => do
    let low ← Json.required Json.scalar? low
    let high ← Json.required Json.scalar? high
    some ⟨low, high⟩
  | _ => none

end Span

namespace Walkway

/-- The members of a walkway. -/
def members (w : Walkway) : List (String × Json) :=
  [("row_z", .ofScalar w.rowZ), ("columns", w.columns.toJson), ("turn_column_x", .ofScalar w.columnX),
   ("rows", w.rows.toJson), ("turn_stage", .ofNat w.turnStage), ("epsilon", .ofScalar w.tolerance)]

/-- The JSON value of a walkway. -/
def toJson (w : Walkway) : Json :=
  .object w.members

/-- The walkway that a JSON value stands for. -/
def ofJson? (j : Json) : Option Walkway :=
  match j.slots? ["row_z", "columns", "turn_column_x", "rows", "turn_stage", "epsilon"] with
  | some [rowZ, columns, columnX, rows, turnStage, tolerance] => do
    let rowZ ← Json.required Json.scalar? rowZ
    let columns ← Json.required Span.ofJson? columns
    let columnX ← Json.required Json.scalar? columnX
    let rows ← Json.required Span.ofJson? rows
    let turnStage ← Json.required Json.index? turnStage
    let tolerance ← Json.optional defaultTolerance Json.scalar? tolerance
    some ⟨rowZ, columns, columnX, rows, turnStage, tolerance⟩
  | _ => none

end Walkway

namespace Violation

/-- All violations. -/
def all : List Violation :=
  [.outOfBounds, .offPath]

/-- The JSON value of a violation. -/
def toJson (v : Violation) : Json :=
  .string v.name

/-- The violation that a JSON value stands for. -/
def ofJson? (held : Bool) : Json → Option Violation :=
  Json.oneOf? all name held

end Violation

namespace Area

/-- The JSON value of an area. -/
def toJson : Area → Json
  | .platform x z => .object [("kind", .string "box"), ("x", x.toJson), ("z", z.toJson)]
  | .walkway w => .object (("kind", .string "path") :: w.members)

/-- The area that a JSON value stands for. The value is held in memory until its kind is known;
`around` containers enclose it. -/
def ofJson? (around : Nat) (j : Json) : Option Area :=
  if j.holdable (Json.maxDepth - around) then
    match j.tagged? "kind" with
    | some ("box", body) =>
      match body.slots? ["x", "z"] with
      | some [x, z] => do
        let x ← Json.required Span.ofJson? x
        let z ← Json.required Span.ofJson? z
        some (.platform x z)
      | _ => none
    | some ("path", body) => (Walkway.ofJson? body).map .walkway
    | _ => none
  else none

end Area

namespace Target

/-- The JSON value of a target. -/
def toJson (t : Target) : Json :=
  .object
    [("name", .string t.name), ("position", t.position.toJson), ("radius", .ofScalar t.radius),
     ("required", .bool t.required)]

/-- The target that a JSON value stands for, not yet collected. -/
def ofJson? (j : Json) : Option Target :=
  match j.slots? ["name", "position", "radius", "required"] with
  | some [name, position, radius, required] => do
    let name ← Json.required Json.string? name
    let position ← Json.required Point.ofJson? position
    let radius ← Json.required Json.scalar? radius
    let required ← Json.optional true Json.bool? required
    some ⟨name, position, radius, required, false⟩
  | _ => none

end Target

namespace Group

/-- The JSON value of a group. -/
def toJson (g : Group) : Json :=
  .object [("command", g.command.toJson), ("count", .ofNat g.count.toNat)]

/-- The group that a JSON value stands for. -/
def ofJson? (j : Json) : Option Group :=
  match j.slots? ["command", "count"] with
  | some [command, count] => do
    let command ← Json.required (Command.ofJson? false) command
    let count ← Json.required Json.word32? count
    some ⟨command, count⟩
  | _ => none

end Group

namespace Objective

/-- The JSON value of an objective, the list of its groups. -/
def toJson (o : Objective) : Json :=
  .array (o.groups.map Group.toJson)

/-- The objective that a JSON value stands for. -/
def ofJson? (j : Json) : Option Objective :=
  (j.list? Group.ofJson?).map .mk

end Objective

namespace Completion

/-- All completion rules. -/
def all : List Completion :=
  [.objective, .objectiveAndTargets, .targetsOnly]

/-- The rule of a level that gives none. -/
def default : Completion := .objective

/-- The JSON value of a completion rule. -/
def toJson (c : Completion) : Json :=
  .string c.name

/-- The completion rule that a JSON value stands for. -/
def ofJson? : Json → Option Completion :=
  Json.oneOf? all name false

end Completion

namespace Level

/-- The JSON value of a level. -/
def toJson (level : Level) : Json :=
  .object
    [("id", .string level.id), ("title", .string level.title),
     ("step_distance", .ofScalar level.stepDistance), ("start", level.start.toJson),
     ("constraint", level.area.toJson), ("targets", .array (level.targets.map Target.toJson)),
     ("objective", level.objective.toJson), ("completion", level.completion.toJson)]

/-- The level that a JSON value stands for, whether it can be played or not. -/
def ofJson? (j : Json) : Option Level :=
  match j.slots? ["id", "title", "step_distance", "start", "constraint", "targets", "objective",
    "completion"] with
  | some [id, title, stepDistance, start, area, targets, objective, completion] => do
    let id ← Json.required Json.string? id
    let title ← Json.required Json.string? title
    let stepDistance ← Json.required Json.scalar? stepDistance
    let start ← Json.required Pose.ofJson? start
    let area ← Json.required (Area.ofJson? 1) area
    let targets ← Json.optional [] (Json.list? Target.ofJson?) targets
    let objective ← Json.required Objective.ofJson? objective
    let completion ← Json.optional Completion.default Completion.ofJson? completion
    some ⟨id, title, stepDistance, start, area, targets, objective, completion⟩
  | _ => none

/-- The text of a level, indented for a reader. -/
def text (level : Level) : String :=
  level.toJson.renderIndented

/-- The level that a text stands for, whether it can be played or not. -/
def ofText? : String → Option Level :=
  Json.decode? ofJson?

end Level

end Seahorse
