import Seahorse.Codec.Level
import Seahorse.Settings
import Seahorse.Unlocks

/-!
# What is kept about a player, in JSON

Settings are a record. A record of unlocked levels is an object with the level ids as keys; what is
stored is read on top of the record of a new player, so the built-in levels always have an entry.
-/

namespace Seahorse

namespace Pace

/-- The JSON value of a pace. -/
def toJson (p : Pace) : Json :=
  .string p.name

/-- The pace that a JSON value stands for. -/
def ofJson? : Json → Option Pace :=
  Json.oneOf? all name false

end Pace

namespace Settings

/-- The JSON value of settings. -/
def toJson (s : Settings) : Json :=
  .object
    [("pacing", s.pace.toJson), ("completion_delay", .ofScalar s.completionDelay),
     ("message_duration", .ofScalar s.messageDuration), ("reduced_motion", .bool s.reducedMotion)]

/-- The settings that a JSON value stands for. -/
def ofJson? (j : Json) : Option Settings :=
  match j.slots? ["pacing", "completion_delay", "message_duration", "reduced_motion"] with
  | some [pace, completionDelay, messageDuration, reducedMotion] => do
    let pace ← Json.required Pace.ofJson? pace
    let completionDelay ← Json.optional defaultCompletionDelay Json.scalar? completionDelay
    let messageDuration ← Json.optional defaultMessageDuration Json.scalar? messageDuration
    let reducedMotion ← Json.optional false Json.bool? reducedMotion
    some ⟨pace, completionDelay, messageDuration, reducedMotion⟩
  | _ => none

/-- The text of settings. -/
def text (s : Settings) : String :=
  s.toJson.render

/-- The settings that a text stands for. -/
def ofText? : String → Option Settings :=
  Json.decode? ofJson?

end Settings

namespace Unlocks

/-- The JSON value of a record. -/
def toJson (u : Unlocks) : Json :=
  .object (u.entries.map fun (id, unlocked) => (id, .bool unlocked))

/-- The entries that a JSON value stands for, in the order of the text. -/
def entriesOfJson? : Json → Option (List (String × Bool))
  | .object members => members.mapM fun (id, j) => j.bool?.map (id, ·)
  | _ => none

/-- The text of a record. -/
def text (u : Unlocks) : String :=
  u.toJson.render

/-- The record of a new player with the entries of a stored text. -/
def ofText? (text : String) : Option Unlocks :=
  (Json.decode? entriesOfJson? text).map default.setAll

end Unlocks

end Seahorse
