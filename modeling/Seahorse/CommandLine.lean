import Seahorse.Command.Parse
import Seahorse.Level.Builtin
import Seahorse.Level.Load
import Seahorse.Session
import Seahorse.Settings
import Seahorse.Text.Quoted

/-!
# The command line

Runs one program on one level and reports what happens. What the command line does is a list of
actions, notes, lines and pauses, which a thin shell carries out.
-/

namespace Seahorse.CommandLine

/-! ## Arguments -/

/-- What was asked for. -/
structure Options where
  /-- The id of a built-in level. -/
  level : String
  /-- A file with a level, which is taken instead. -/
  config : Option String
  /-- The program. -/
  program : String
  /-- The pace. -/
  pace : String
  /-- Whether to leave out the pauses. -/
  instant : Bool
  /-- Whether to list the built-in levels and do nothing else. -/
  list : Bool
  deriving DecidableEq, Repr

/-- The arguments found so far. -/
structure Given where
  /-- The value of `--level`. -/
  level : Option String
  /-- The value of `--config`. -/
  config : Option String
  /-- The value of `--program`. -/
  program : Option String
  /-- The value of `--pacing`. -/
  pace : Option String
  /-- Whether there is an `--instant`. -/
  instant : Bool
  /-- Whether there is a `--list`. -/
  list : Bool

namespace Given

/-- Before the first argument. -/
def nothing : Given :=
  ⟨none, none, none, none, false, false⟩

/-- Notes the value of an option. An option must not be repeated, and a file needs a name. -/
def setValue (g : Given) (name value : String) : Option Given :=
  match name with
  | "level" => if g.level.isSome then none else some { g with level := some value }
  | "config" =>
    if g.config.isSome || value.isEmpty then none else some { g with config := some value }
  | "program" => if g.program.isSome then none else some { g with program := some value }
  | "pacing" => if g.pace.isSome then none else some { g with pace := some value }
  | _ => none

/-- Notes a switch, an option without a value. -/
def setSwitch (g : Given) (name : String) : Option Given :=
  match name with
  | "instant" => if g.instant then none else some { g with instant := true }
  | "list" => if g.list then none else some { g with list := true }
  | _ => none

/-- The options, with defaults for what was not given. -/
def options (g : Given) : Options :=
  { level := g.level.getD "level1"
    config := g.config
    program := g.program.getD ""
    pace := g.pace.getD "normal"
    instant := g.instant
    list := g.list }

end Given

/-- Whether an option has no value. -/
def isSwitch (name : String) : Bool :=
  name = "instant" || name = "list"

/-- Whether an argument looks like an option, so that it cannot be the value of the one before. -/
def isHyphenated (arg : String) : Bool :=
  match arg.toList with
  | '-' :: _ :: _ => true
  | _ => false

/-- The name of an option, and the value behind an equals sign. -/
def splitOption? (arg : String) : Option (String × Option String) :=
  match arg.toList with
  | '-' :: '-' :: cs =>
    let name := String.ofList (cs.takeWhile (· ≠ '='))
    match cs.dropWhile (· ≠ '=') with
    | '=' :: value => some (name, some (String.ofList value))
    | _ => some (name, none)
  | _ => none

/-- Reads the arguments. Behind two hyphens nothing may follow, as there are no arguments without a
name. -/
def readArgs (g : Given) : List String → Option Given
  | [] => some g
  | [arg] =>
    if arg = "--" then some g
    else
      match splitOption? arg with
      | some (name, some value) => g.setValue name value
      | some (name, none) => g.setSwitch name
      | none => none
  | arg :: value :: rest =>
    match splitOption? arg with
    | some (name, some attached) =>
      match g.setValue name attached with
      | some g => readArgs g (value :: rest)
      | none => none
    | some (name, none) =>
      if isSwitch name then
        match g.setSwitch name with
        | some g => readArgs g (value :: rest)
        | none => none
      else if isHyphenated value then none
      else
        match g.setValue name value with
        | some g => readArgs g rest
        | none => none
    | none => none

/-- The options that arguments stand for. -/
def parse? (args : List String) : Option Options :=
  (readArgs Given.nothing args).map Given.options

/-! ## Reports -/

/-- Something that the shell does. -/
inductive Action where
  /-- Write an entry to the journal. -/
  | note (entry : Entry)
  /-- Write a line to the output. -/
  | print (line : String)
  /-- Wait for some milliseconds. -/
  | pause (millis : Nat)
  deriving DecidableEq, Repr

/-- Why the command line gave up. -/
structure Trouble where
  /-- What it was about to do, or what is wrong. -/
  headline : String
  /-- Why that failed. -/
  causes : List String
  deriving DecidableEq, Repr

/-- The message about a trouble. -/
def Trouble.text (t : Trouble) : String :=
  s!"Error: {t.headline}\n" ++
    (if t.causes.isEmpty then ""
     else "\nCaused by:\n" ++ String.join (t.causes.map fun cause => s!"    {cause}\n"))

/-- The trouble with a failed activity. A text that cannot be read is the first of several causes; the
others are details of the text. -/
def Trouble.during (activity : String) (f : Failure) : Trouble :=
  ⟨activity, [if f = .unreadable then s!"0: {f.message}" else f.message]⟩

/-- All that the command line does. -/
structure Report where
  /-- The actions, in order. -/
  actions : List Action
  /-- The trouble it ended with. -/
  trouble : Option Trouble

namespace Report

/-- The exit code. -/
def code (r : Report) : Nat :=
  if r.trouble.isSome then 1 else 0

end Report

/-- The notes of a journal that are shown; details are not. -/
def shown (journal : List Entry) : List Action :=
  (journal.filter (·.severity ≠ .debug)).map .note

/-! ## Playing -/

/-- The lines of the list of built-in levels. -/
def levelLines : List Action :=
  Level.builtins.map fun level => .print s!"{Text.padRight 8 level.id} {level.title}"

/-- The note about an event. -/
def eventEntries : Event → List Entry
  | .moved command pose =>
    let name := Text.padRight 10 command.name
    let x := Decimal.fixedText 2 pose.x
    let z := Decimal.fixedText 2 pose.z
    let heading := Decimal.fixedText 2 pose.heading
    [⟨.info, s!"{name} -> x={x} z={z} heading={heading}"⟩]
  | .captured name => [⟨.info, s!"picked up {name}"⟩]
  | .aborted _ message => [⟨.warn, message⟩]
  | _ => []

/-- Executes up to `count` commands with a pause after each but the last, and returns the last outcome
and what was done. -/
def play (pause : List Action) : Nat → Session → Option Outcome × Session × List Action
  | 0, s => (none, s, [])
  | count + 1, s =>
    let ticked := s.tick
    let (events, s) := ticked.value.2.drain
    let notes := shown (ticked.journal ++ events.flatMap eventEntries)
    match ticked.value.1 with
    | none => (none, ticked.value.2, shown ticked.journal)
    | some outcome =>
      if outcome.isContinued then
        let (last, s, actions) := play pause count s
        (last, s, notes ++ pause ++ actions)
      else (some outcome, s, notes)

/-- The coordinates of a pose. -/
def placeText (pose : Pose) : String :=
  let x := Decimal.fixedText 2 pose.x
  let z := Decimal.fixedText 2 pose.z
  s!"x={x} z={z}"

/-- The lines about the end of a run. -/
def summary (s : Session) : Option Outcome → List String
  | some (.completed _ collected) =>
    s!"Level complete! collected: {Text.quotedList collected}" ::
      ((Level.next? s.level.id).map fun next => s!"Next up: {next}").toList
  | some (.aborted reason pose) => [s!"{reason.message} (stopped at {placeText pose})"]
  | some outcome =>
    let (done, total) := s.objectiveProgress
    [s!"Program finished at {placeText outcome.pose}; objective {done}/{total}"]
  | none =>
    let (done, total) := s.objectiveProgress
    [s!"Program finished; objective {done}/{total}"]

/-- Loads the level that was asked for. `fileText` gives the text of a file, or says why there is
none. -/
def loadLevel (fileText : String → Except String String) (o : Options) :
    Logged (Except Trouble Level) :=
  match o.config with
  | some path =>
    match fileText path with
    | .error cause => pure (.error ⟨s!"reading level file {path}", [cause]⟩)
    | .ok text => do
      let loaded ← Level.load text
      pure (loaded.mapError (.during s!"loading level file {path}"))
  | none => pure ((Level.builtin o.level).mapError (.during s!"loading built-in level {o.level}"))

/-- The pause between two commands, in milliseconds. -/
def pauseMillis (pace : Pace) : Nat :=
  match pace.interval.quanta? with
  | some (false, n) => Decimal.roundDiv (1000 * n) (1 <<< Scalar.quantumExponent)
  | _ => 0

/-- Runs a program on a session. -/
def runProgram (o : Options) (pace : Pace) (program : Program) (s : Session) : List Action :=
  if program.isEmpty then [.note ⟨.warn, "Empty program, nothing to run"⟩]
  else
    let started := s.start program
    match started.value with
    | .error _ => shown started.journal
    | .ok s =>
      let pause := if o.instant then [] else [.pause (pauseMillis pace)]
      let (last, s, actions) := play pause (max 1 s.run.remaining) s
      shown started.journal ++ actions ++ (summary s last).map .print

/-- What the command line does for some options. -/
def run (fileText : String → Except String String) (o : Options) : Report :=
  let hello : List Action := [.note ⟨.info, "Syntax Saga (native) starting..."⟩]
  if o.list then ⟨hello ++ levelLines, none⟩
  else
    match Pace.parse? o.pace with
    | none => ⟨hello, some ⟨s!"unknown pacing '{o.pace}'", []⟩⟩
    | some pace =>
      match Program.parse o.program with
      | .error f => ⟨hello, some (.during "parsing program" f)⟩
      | .ok program =>
        let loaded := loadLevel fileText o
        match loaded.value with
        | .error trouble => ⟨hello ++ shown loaded.journal, some trouble⟩
        | .ok level =>
          let prepared := Session.prepare level
          let notes := hello ++ shown (loaded.journal ++ prepared.journal)
          match prepared.value with
          | .error f => ⟨notes, some ⟨f.message, []⟩⟩
          | .ok s => ⟨notes ++ runProgram o pace program s, none⟩

end Seahorse.CommandLine
