import Seahorse.Codec.Run
import Seahorse.Level.Builtin
import Seahorse.Level.Load
import Seahorse.Pacer
import Seahorse.Page.Player
import Seahorse.Session

/-!
# Runners

A runner is an open level together with the clock that paces it and the player's settings: what a
page holds as a `LevelRunner`.
-/

namespace Seahorse

/-- Why a page refused a request. -/
inductive Refusal where
  /-- The library refused it. -/
  | failure (f : Failure)
  /-- The program is not a list of commands in JSON. -/
  | unreadableProgram
  /-- There is no such pace. -/
  | unknownPace (text : String)
  deriving DecidableEq, Repr

/-- The text of a refusal. About a program that cannot be read there is nothing more to say. -/
def Refusal.message? : Refusal → Option String
  | .failure f => some f.message
  | .unreadableProgram => none
  | .unknownPace text => some s!"unknown pacing '{text}'"

/-- An open level (`LevelRunner`). -/
structure Runner where
  /-- The level and the run on it. -/
  session : Session
  /-- The clock. -/
  pacer : Pacer
  /-- The player's settings. -/
  settings : Settings
  deriving DecidableEq, Repr

namespace Runner

/-- Opens a level with the stored settings (`with_config`). -/
def ofLevel (level : Level) (storage : Option Storage) : Logged (Except Refusal Runner) := do
  let settings ← Settings.load storage
  match ← Session.prepare level with
  | .error f => pure (.error (.failure f))
  | .ok session => pure (.ok ⟨session, Pacer.ofInterval settings.interval, settings⟩)

/-- Opens a built-in level. -/
def openBuiltin (id : String) (storage : Option Storage) : Logged (Except Refusal Runner) :=
  match Level.builtin id with
  | .error f => pure (.error (.failure f))
  | .ok level => ofLevel level storage

/-- Opens the level that a text stands for (`fromJson`). -/
def openText (text : String) (storage : Option Storage) : Logged (Except Refusal Runner) := do
  match ← Level.load text with
  | .error f => pure (.error (.failure f))
  | .ok level => ofLevel level storage

/-- Starts the program that a JSON text stands for. Whenever that is not refused, the first tick is
due at once. -/
def start (text : String) (r : Runner) : Logged (Except Refusal Runner) :=
  match Json.decode? Program.ofJson? text with
  | none => pure (.error .unreadableProgram)
  | some program => do
    match ← r.session.start program with
    | .error f => pure (.error (.failure f))
    | .ok session => pure (.ok { r with session, pacer := r.pacer.reset })

/-- Executes one command, whatever the clock says. -/
def tick (r : Runner) : Logged (Option Outcome × Runner) := do
  let (outcome, session) ← r.session.tick
  pure (outcome, { r with session })

/-- The seconds in a frame of so many milliseconds. -/
def secondsOfMillis (millis : Double) : Scalar :=
  Scalar.ofDouble (millis / 1000)

/-- Lets the time of a frame go by and executes the commands that are due. While no program is being
executed the clock stands still. -/
def advance (millis : Double) (r : Runner) : Logged (List Outcome × Runner) :=
  if r.session.isRunning then do
    let (due, pacer) := r.pacer.update (secondsOfMillis millis)
    let (outcomes, session) ← r.session.ticks due
    pure (outcomes, { r with session, pacer })
  else pure ([], r)

/-- Hands out the pending events. -/
def drain (r : Runner) : List Event × Runner :=
  let (events, session) := r.session.drain
  (events, { r with session })

/-- Goes back to before the first program. -/
def reset (r : Runner) : Logged Runner := do
  let session ← r.session.reset
  pure { r with session, pacer := r.pacer.reset }

/-- Changes the pace and stores it (`setPacing`). The clock starts anew. -/
def setPace (pace : Pace) (storage : Option Storage) (r : Runner) :
    Logged (Runner × Option Storage) := do
  let settings := { r.settings with pace }
  let storage ← settings.save storage
  pure ({ r with settings, pacer := Pacer.ofInterval settings.interval }, storage)

end Runner

end Seahorse
