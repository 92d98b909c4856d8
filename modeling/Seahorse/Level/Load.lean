import Seahorse.Codec.Level
import Seahorse.Journal

/-!
# Loading a level
-/

namespace Seahorse.Level

/-- The level that a text stands for, if it can be played, with its start heading in `(-π, π]`. -/
def ofText (text : String) : Except Failure Level :=
  match ofText? text with
  | none => .error .unreadable
  | some level => level.validate.map fun _ => { level with start := level.start.wrapped }

theorem ofText_eq_ok_iff {text : String} {level : Level} :
    ofText text = .ok level ↔ ∃ raw, ofText? text = some raw ∧ raw.validate = .ok () ∧
      level = { raw with start := raw.start.wrapped } := by
  unfold ofText
  cases ofText? text with
  | none => simp
  | some raw =>
    cases hvalid : raw.validate with
    | error failure => simp [Except.map, hvalid]
    | ok u => simp [Except.map, hvalid, eq_comm]

/-- Loads a level from a text. -/
def load (text : String) : Logged (Except Failure Level) :=
  match ofText text with
  | .error failure => pure (.error failure)
  | .ok level => ⟨.ok level, [⟨.info, s!"Loaded level '{level.id}' from JSON"⟩]⟩

end Seahorse.Level
