import Seahorse.Decimal.Fixed
import Seahorse.Journal
import Seahorse.Run

/-!
# Sessions

A session is a level that can be played and the run on it, which is what a host holds on to as a
`RunHandle`. Its operations are those of the run, and they keep a journal.
-/

namespace Seahorse

/-! ## What is noted -/

namespace Run

/-- The entries of starting a program. -/
def startEntries (level : Level) (program : Program) (run : Run) : List Entry :=
  if program.isEmpty then []
  else if run.phase = .running then
    [⟨.warn, s!"Ignoring start for '{level.id}': run already in progress"⟩]
  else
    (if run.phase.isTerminal then
      [⟨.debug, s!"Replaying '{level.id}' after a {run.phase.title} run"⟩]
    else []) ++
      [⟨.info, s!"Run started on '{level.id}' with {program.length} commands"⟩]

/-- The line about the pose after a command. -/
def poseLine (tick : Nat) (command : Command) (pose : Pose) : String :=
  let x := Decimal.fixedText 2 pose.x
  let z := Decimal.fixedText 2 pose.z
  let heading := Decimal.fixedText 3 pose.heading
  s!"tick {tick}: {command.title} -> ({x}, {z}, {heading})"

/-- The entry about the end of a run. -/
def verdictEntries (level : Level) (ticks : Nat) : Verdict → List Entry
  | .continues => []
  | .completes => [⟨.info, s!"Level '{level.id}' completed in {ticks} ticks"⟩]
  | .exhausts => [⟨.info, s!"Program exhausted on '{level.id}' without completing"⟩]

/-- The entries of a step. -/
def stepEntries (level : Level) (run : Run) : Step → List Entry
  | .ranOut => []
  | .blocked command reason =>
    let index := run.cursor + 1
    [⟨.info, s!"Run aborted on '{level.id}' at command {index} ({command.title}): {reason.title}"⟩]
  | .taken move =>
    let ticks := run.ticks + 1
    ⟨.debug, poseLine ticks move.command move.pose⟩ ::
      move.captured.map (fun name => ⟨.info, s!"Target '{name}' captured"⟩) ++
      (if move.progress = .reset then
        [⟨.debug, s!"Objective sequence broken by {move.command.title}"⟩]
      else []) ++
      verdictEntries level ticks move.verdict

/-- The entries of a tick. -/
def tickEntries (level : Level) (run : Run) : List Entry :=
  match run.next? level with
  | none => []
  | some step => run.stepEntries level step

end Run

/-! ## Sessions -/

/-- A level and the run on it (`RunHandle`). -/
structure Session where
  /-- The level. -/
  level : Level
  /-- The run. -/
  run : Run
  deriving DecidableEq, Repr

namespace Session

/-- Prepares a run on a level, which must be one that can be played. -/
def prepare (level : Level) : Logged (Except Failure Session) :=
  match level.validate with
  | .error failure => pure (.error failure)
  | .ok () => ⟨.ok ⟨level, Run.fresh level⟩, [⟨.info, s!"Level '{level.id}' ready"⟩]⟩

/-- Whether a program is being executed. -/
def isRunning (s : Session) : Bool :=
  s.run.phase = .running

/-- Starts a program. -/
def start (program : Program) (s : Session) : Logged (Except Failure Session) :=
  ⟨(s.run.start s.level program).map fun run => { s with run }, s.run.startEntries s.level program⟩

/-- Executes one command. -/
def tick (s : Session) : Logged (Option Outcome × Session) :=
  let (outcome, run) := s.run.tick s.level
  ⟨(outcome, { s with run }), s.run.tickEntries s.level⟩

/-- Executes up to `count` commands, until the run has come to its end. -/
def ticks : Nat → Session → Logged (List Outcome × Session)
  | 0, s => pure ([], s)
  | count + 1, s => do
    let (outcome, s) ← s.tick
    match outcome with
    | none => pure ([], s)
    | some outcome =>
      if outcome.isContinued then
        let (rest, s) ← ticks count s
        pure (outcome :: rest, s)
      else pure ([outcome], s)

/-- Executes commands until the run has come to its end. Every tick but the last leaves one command
less. -/
def finish (s : Session) : Logged (List Outcome × Session) :=
  s.ticks (max 1 s.run.remaining)

/-- The number of groups performed, and the number of groups. -/
def objectiveProgress (s : Session) : Nat × Nat :=
  (min s.run.matcher.stage s.level.objective.length, s.level.objective.length)

/-- Hands out the pending events. -/
def drain (s : Session) : List Event × Session :=
  let (events, run) := s.run.drain
  (events, { s with run })

/-- Goes back to before the first program. -/
def reset (s : Session) : Logged Session :=
  ⟨{ s with run := Run.fresh s.level },
    if s.isRunning then [⟨.info, s!"Run on '{s.level.id}' cancelled"⟩] else []⟩

end Session

end Seahorse
