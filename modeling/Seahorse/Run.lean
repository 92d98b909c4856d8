import Seahorse.Level
import Seahorse.Objective.Matcher

/-!
# Runs

A run executes a program on a level, one command a tick. What the next tick does is decided once, by
`next?`: the command is blocked, because it would leave the legal area, or it is taken. The outcome
of the tick, its events and the run after it all follow from that decision. To its hosts a run is a
`RunState`, the outcome of a tick an `ExecutionResult`, and an event a `RunEvent`.
-/

namespace Seahorse

/-- What a run is doing (`RunPhase`). -/
inductive Phase where
  /-- Nothing: it has not started, or its program ran out. -/
  | idle
  /-- It executes a program. -/
  | running
  /-- It was stopped at the edge of the legal area. -/
  | aborted
  /-- It has solved the level. -/
  | completed
  deriving DecidableEq, Repr

namespace Phase

/-- All phases. -/
def all : List Phase :=
  [.idle, .running, .aborted, .completed]

/-- Whether the run has come to a decision. -/
def isTerminal : Phase → Bool
  | .aborted | .completed => true
  | .idle | .running => false

/-- The name in JSON. -/
def name : Phase → String
  | .idle => "idle"
  | .running => "running"
  | .aborted => "aborted"
  | .completed => "completed"

/-- The name in the journal. -/
def title : Phase → String
  | .idle => "Idle"
  | .running => "Running"
  | .aborted => "Aborted"
  | .completed => "Completed"

end Phase

/-- Something that whoever draws the run wants to know (`RunEvent`). -/
inductive Event where
  /-- A program of so many commands was started. -/
  | started (commands : Nat)
  /-- A command was executed, with the pose after it. -/
  | moved (command : Command) (pose : Pose)
  /-- The target with this name was collected. -/
  | captured (name : String)
  /-- The objective was performed. -/
  | objectiveSatisfied
  /-- The run was stopped. -/
  | aborted (reason : Violation) (message : String)
  /-- The level was solved, with these targets collected. -/
  | completed (collected : List String)
  /-- The program ran out without solving the level. -/
  | exhausted
  deriving DecidableEq, Repr

/-- What one tick came to (`ExecutionResult`). -/
inductive Outcome where
  /-- There are commands left. -/
  | continued (pose : Pose)
  /-- The run was stopped; the pose is the last legal one. -/
  | aborted (reason : Violation) (pose : Pose)
  /-- The level is solved. -/
  | completed (pose : Pose) (collected : List String)
  /-- The program ran out without solving the level. -/
  | exhausted (pose : Pose)
  deriving DecidableEq, Repr

namespace Outcome

/-- The pose after the tick. -/
def pose : Outcome → Pose
  | .continued pose | .aborted _ pose | .completed pose _ | .exhausted pose => pose

/-- Whether the host should go on ticking. -/
def isContinued : Outcome → Bool
  | .continued _ => true
  | _ => false

end Outcome

/-- The state of a run (`RunState`). -/
structure Run where
  /-- What the run is doing. -/
  phase : Phase
  /-- Where the seahorse is. -/
  pose : Pose
  /-- The targets of the level, with what has been collected. -/
  targets : List Target
  /-- How much of the objective has been performed. -/
  matcher : Matcher
  /-- The program. -/
  program : Program
  /-- The index of the next command. -/
  cursor : Nat
  /-- How many commands were executed. -/
  ticks : Nat
  /-- How many steps forward were taken. -/
  forwardSteps : Nat
  /-- The events that the host has not asked for yet, oldest first. -/
  events : List Event
  deriving DecidableEq, Repr

/-- How a taken command leaves the run. -/
inductive Verdict where
  /-- There are commands left. -/
  | continues
  /-- The level is solved. -/
  | completes
  /-- The program has run out. -/
  | exhausts
  deriving DecidableEq, Repr

/-- The phase after a verdict. -/
def Verdict.phase : Verdict → Phase
  | .continues => .running
  | .completes => .completed
  | .exhausts => .idle

/-- A command that is taken, with all that follows from it. -/
structure Move where
  /-- The command. -/
  command : Command
  /-- The pose after it. -/
  pose : Pose
  /-- The names of the targets it newly collects. -/
  captured : List String
  /-- The targets after it. -/
  targets : List Target
  /-- What it does for the objective. -/
  progress : Progress
  /-- The matcher after it. -/
  matcher : Matcher
  /-- How it leaves the run. -/
  verdict : Verdict

namespace Move

/-- The outcome of a move. -/
def outcome (m : Move) : Outcome :=
  match m.verdict with
  | .continues => .continued m.pose
  | .completes => .completed m.pose (Target.collectedNames m.targets)
  | .exhausts => .exhausted m.pose

/-- The event at the end of a run. -/
def lastEvents (m : Move) : List Event :=
  match m.verdict with
  | .continues => []
  | .completes => [.completed (Target.collectedNames m.targets)]
  | .exhausts => [.exhausted]

/-- The events of a move. -/
def events (m : Move) : List Event :=
  .moved m.command m.pose :: m.captured.map .captured ++
    (if m.progress = .satisfied then [.objectiveSatisfied] else []) ++ m.lastEvents

end Move

/-- What a tick does. -/
inductive Step where
  /-- There is no command at the cursor. -/
  | ranOut
  /-- The command would leave the legal area. -/
  | blocked (command : Command) (reason : Violation)
  /-- The command is taken. -/
  | taken (move : Move)

namespace Run

/-- The run before its first program. -/
def fresh (level : Level) : Run where
  phase := .idle
  pose := level.start.wrapped
  targets := level.targets.map Target.fresh
  matcher := Matcher.start
  program := []
  cursor := 0
  ticks := 0
  forwardSteps := 0
  events := []

/-- How many commands are left. -/
def remaining (run : Run) : Nat :=
  run.program.length - run.cursor

/-- The names of the collected targets, in the order of the level. -/
def collected (run : Run) : List String :=
  Target.collectedNames run.targets

/-- Starts a program from the defaults of the level. An empty program is passed over, and a run that
is going on is not disturbed. -/
def start (level : Level) (program : Program) (run : Run) : Except Failure Run :=
  if program.isEmpty then .ok run
  else if run.phase = .running then .error .runInProgress
  else .ok { fresh level with phase := .running, program, events := [.started program.length] }

/-- The move that takes a command, without regard to the legal area. -/
def move (level : Level) (run : Run) (command : Command) : Move :=
  let pose := run.pose.step command level.stepDistance
  let targets := run.targets.map (Target.visited pose.position)
  let (progress, matcher) := run.matcher.feed level.objective command
  let done : Bool := run.program.length ≤ run.cursor + 1
  { command
    pose
    captured := Target.captured pose.position run.targets
    targets
    progress
    matcher
    verdict :=
      if level.completion.isMet (matcher.isSatisfied level.objective)
          (Target.allRequiredCollected targets) done then .completes
      else if done then .exhausts
      else .continues }

/-- Whether a command may be taken. Only commands that change the position are checked, and the leg of
a walkway follows the furthest stage reached, so a broken sequence never leads back onto the row. -/
def allows (level : Level) (run : Run) (command : Command) : Bool :=
  !command.isStep ||
    level.area.allows (run.pose.step command level.stepDistance).position run.matcher.peakStage

/-- What the next tick does; nothing if the run is not going on. -/
def next? (level : Level) (run : Run) : Option Step :=
  if run.phase = .running then
    match run.program[run.cursor]? with
    | none => some .ranOut
    | some command =>
      if run.allows level command then some (.taken (run.move level command))
      else some (.blocked command level.area.violation)
  else none

/-- The outcome of a step. -/
def outcome (run : Run) : Step → Outcome
  | .ranOut => .exhausted run.pose
  | .blocked _ reason => .aborted reason run.pose
  | .taken move => move.outcome

/-- The run after a step. A blocked command changes nothing but the phase and the counters. -/
def after (run : Run) : Step → Run
  | .ranOut => { run with phase := .idle }
  | .blocked _ reason =>
    { run with
      phase := .aborted
      cursor := run.cursor + 1
      ticks := run.ticks + 1
      events := run.events ++ [.aborted reason reason.message] }
  | .taken move =>
    { run with
      phase := move.verdict.phase
      pose := move.pose
      targets := move.targets
      matcher := move.matcher
      cursor := run.cursor + 1
      ticks := run.ticks + 1
      forwardSteps := if move.command = .forward then run.forwardSteps + 1 else run.forwardSteps
      events := run.events ++ move.events }

/-- Executes the next command; there is no outcome if the run is not going on. -/
def tick (level : Level) (run : Run) : Option Outcome × Run :=
  match run.next? level with
  | none => (none, run)
  | some step => (some (run.outcome step), run.after step)

/-- Hands out the pending events. -/
def drain (run : Run) : List Event × Run :=
  (run.events, { run with events := [] })

end Run

end Seahorse
