import Seahorse.Page.Runner

/-!
# Pages

A page holds at most one open level and perhaps a storage, and answers requests: the methods of the
`LevelRunner` that is open, the ways to open another one, and the functions `isLevelUnlocked` and
`completeLevel` beside it. A request that needs an open level is not answered when there is none. Where
several levels are open (`Visit`), a page is what one of them sees.
-/

namespace Seahorse

/-- The state of a page. -/
structure Page where
  /-- What is kept between visits, if anything can be. -/
  storage : Option Storage
  /-- The open level. -/
  runner : Option Runner
  /-- Whether the page has been started before. -/
  booted : Bool
  /-- The warnings on the console, oldest first. -/
  warnings : List String
  deriving DecidableEq, Repr

/-- What a page can be asked for. -/
inductive Request where
  /-- Open a built-in level (`new`). -/
  | openBuiltin (id : String)
  /-- Open the level that a text stands for (`fromJson`). -/
  | openText (text : String)
  /-- Start the program that a text stands for. -/
  | start (text : String)
  /-- Execute one command. -/
  | tick
  /-- Let the time of a frame go by. -/
  | advance (millis : Double)
  /-- Hand out the pending events (`drainEvents`). -/
  | drain
  /-- Where is the seahorse? (`currentPose`) -/
  | pose
  /-- What has been collected? (`capturedTargets`) -/
  | captured
  /-- Is a program being executed? -/
  | isRunning
  /-- Go back to before the first program. -/
  | reset
  /-- Change the pace (`setPacing`). -/
  | setPace (text : String)
  /-- How long is the completion delay? (`completionDelayMs`) -/
  | completionDelay
  /-- How long does a message stay? (`messageDurationMs`) -/
  | messageDuration
  /-- Is a level unlocked? (`isLevelUnlocked`) -/
  | isUnlocked (id : String)
  /-- Note that a level is completed (`completeLevel`). -/
  | complete (id : String)
  /-- What is in the storage? -/
  | storage
  /-- Start the page (`wasm_start`). -/
  | boot
  deriving DecidableEq

/-- What a page answers. -/
inductive Reply where
  /-- It has been done. -/
  | done
  /-- There is no open level. -/
  | noRunner
  /-- It has been refused. -/
  | refused (r : Refusal)
  /-- The outcome of a tick. -/
  | outcome (o : Option Outcome)
  /-- The outcomes of several ticks. -/
  | outcomes (os : List Outcome)
  /-- Events. -/
  | events (es : List Event)
  /-- A pose. -/
  | pose (p : Pose)
  /-- Names of targets. -/
  | names (ns : List String)
  /-- A truth value. -/
  | flag (b : Bool)
  /-- A time in milliseconds. -/
  | millis (d : Double)
  /-- The id of a level, if there is one. -/
  | level (id : Option String)
  /-- The content of the storage. -/
  | storage (s : Option Storage)
  /-- The warnings on the console. -/
  | warnings (ws : List String)
  /-- Nothing to say. -/
  | nothing
  deriving DecidableEq

namespace Page

/-- A page that has just been opened. -/
def fresh (storage : Option Storage) : Page :=
  ⟨storage, none, false, []⟩

/-- The page with the runner that was asked for, or a refusal. -/
def install (page : Page) : Except Refusal Runner → Reply × Page
  | .ok runner => (.done, { page with runner := some runner })
  | .error r => (.refused r, page)

/-- Answers a request that the open level deals with alone. -/
def withRunner (page : Page) (act : Runner → Logged (Reply × Runner)) : Logged (Reply × Page) :=
  match page.runner with
  | none => pure (.noRunner, page)
  | some runner => do
    let (reply, runner) ← act runner
    pure (reply, { page with runner := some runner })

/-- Answers a question about the open level. -/
def ask (page : Page) (answer : Runner → Reply) : Logged (Reply × Page) :=
  page.withRunner fun runner => pure (answer runner, runner)

/-- Starts the page. The logger can be installed only once. -/
def boot (page : Page) : Logged (Reply × Page) :=
  let warnings := if page.booted then page.warnings ++ ["logger already initialised"]
    else page.warnings
  ⟨(.warnings warnings, { page with booted := true, warnings }),
    [⟨.info, "Syntax Saga core loaded"⟩]⟩

/-- Changes the pace of the open level. -/
def setPace (page : Page) (text : String) : Logged (Reply × Page) :=
  match page.runner with
  | none => pure (.noRunner, page)
  | some runner =>
    match Pace.parse? text with
    | none => pure (.refused (.unknownPace text), page)
    | some pace => do
      let (runner, storage) ← runner.setPace pace page.storage
      pure (.done, { page with runner := some runner, storage })

/-- Answers a request. -/
def answer (page : Page) : Request → Logged (Reply × Page)
  | .openBuiltin id => do
    let opened ← Runner.openBuiltin id page.storage
    pure (page.install opened)
  | .openText text => do
    let opened ← Runner.openText text page.storage
    pure (page.install opened)
  | .start text => page.withRunner fun runner => do
    match ← runner.start text with
    | .ok runner => pure (.done, runner)
    | .error r => pure (.refused r, runner)
  | .tick => page.withRunner fun runner => do
    let (outcome, runner) ← runner.tick
    pure (.outcome outcome, runner)
  | .advance millis => page.withRunner fun runner => do
    let (outcomes, runner) ← runner.advance millis
    pure (.outcomes outcomes, runner)
  | .drain => page.withRunner fun runner =>
    let (events, runner) := runner.drain
    pure (.events events, runner)
  | .pose => page.ask fun runner => .pose runner.session.run.pose
  | .captured => page.ask fun runner => .names runner.session.run.collected
  | .isRunning => page.ask fun runner => .flag runner.session.isRunning
  | .reset => page.withRunner fun runner => do
    let runner ← runner.reset
    pure (.nothing, runner)
  | .setPace text => page.setPace text
  | .completionDelay => page.ask fun runner => .millis runner.settings.delayMillis
  | .messageDuration => page.ask fun runner => .millis runner.settings.messageMillis
  | .isUnlocked id => do
    let (unlocked, storage) ← Unlocks.isUnlocked id page.storage
    pure (.flag unlocked, { page with storage })
  | .complete id => do
    let (next, storage) ← Unlocks.complete id page.storage
    pure (.level next, { page with storage })
  | .storage => pure (.storage page.storage, page)
  | .boot => page.boot

/-- Answers several requests in turn. -/
def answerAll (page : Page) : List Request → Logged (List Reply × Page)
  | [] => pure ([], page)
  | request :: requests => do
    let (reply, page) ← page.answer request
    let (replies, page) ← page.answerAll requests
    pure (reply :: replies, page)

end Page

end Seahorse
