import Mathlib.Data.List.Basic
import Mathlib.Logic.Function.Iterate
import Seahorse.Session

/-!
# What a host does with a session

A host prepares a session on a level and then starts programs, ticks, drains events and resets, in
any order. A refused operation leaves the session as it was. `preserved` is the induction that every
statement about all sequences of operations rests on.
-/

namespace Seahorse.Session

/-- What a host can do with a session. -/
inductive Op where
  /-- Start a program. -/
  | start (program : Program)
  /-- Execute one command. -/
  | tick
  /-- Go back to before the first program. -/
  | reset
  /-- Ask for the pending events. -/
  | drain
  deriving DecidableEq

/-- What a session answers. -/
inductive Answer where
  /-- It has been done. -/
  | done
  /-- It has been refused. -/
  | refused (failure : Failure)
  /-- The outcome of a tick, if a program is being executed. -/
  | ticked (outcome : Option Outcome)
  /-- The pending events. -/
  | drained (events : List Event)
  deriving DecidableEq

/-- Performs an operation. -/
def perform (s : Session) : Op → Answer × Session
  | .start program =>
    match (s.start program).value with
    | .ok t => (.done, t)
    | .error failure => (.refused failure, s)
  | .tick => (.ticked s.tick.value.1, s.tick.value.2)
  | .reset => (.done, s.reset.value)
  | .drain => (.drained s.drain.1, s.drain.2)

/-- Performs operations in turn. -/
def performAll (s : Session) : List Op → List Answer × Session
  | [] => ([], s)
  | op :: ops =>
    let (answer, t) := s.perform op
    let (answers, u) := t.performAll ops
    (answer :: answers, u)

/-- The events that an answer hands out. -/
def Answer.events : Answer → List Event
  | .drained events => events
  | _ => []

/-- The session after one tick. -/
def ticked (s : Session) : Session :=
  s.tick.value.2

section Fields

variable (s : Session)

@[simp]
theorem tick_outcome : s.tick.value.1 = (s.run.tick s.level).1 := rfl

@[simp]
theorem ticked_run : s.ticked.run = (s.run.tick s.level).2 := rfl

@[simp]
theorem ticked_level : s.ticked.level = s.level := rfl

/-- A tick is a tick of the run. -/
@[simp]
theorem perform_tick : s.perform .tick = (.ticked (s.run.tick s.level).1, s.ticked) := rfl

/-- A reset forgets the run and keeps the level. -/
@[simp]
theorem perform_reset : s.perform .reset = (.done, ⟨s.level, Run.fresh s.level⟩) := rfl

@[simp]
theorem perform_drain :
    s.perform .drain = (.drained s.run.events, ⟨s.level, { s.run with events := [] }⟩) := rfl

@[simp]
theorem perform_start_events (program : Program) : (s.perform (.start program)).1.events = [] := by
  unfold perform
  dsimp only
  split <;> rfl

@[simp]
theorem performAll_nil : s.performAll [] = ([], s) := rfl

@[simp]
theorem performAll_cons (op : Op) (ops : List Op) :
    s.performAll (op :: ops) =
      ((s.perform op).1 :: ((s.perform op).2.performAll ops).1,
        ((s.perform op).2.performAll ops).2) :=
  rfl

end Fields

/-- The run that a started program begins with. -/
def begun (level : Level) (program : Program) : Session :=
  ⟨level, { Run.fresh level with phase := .running, program, events := [.started program.length] }⟩

/-- A program that is not empty is started whenever nothing is being executed. -/
theorem start_eq_ok {s : Session} {program : Program} (hne : program ≠ [])
    (hs : s.run.phase ≠ .running) : (s.start program).value = .ok (begun s.level program) := by
  simp [start, Run.start, hne, hs, Except.map, begun]

/-- A start that is not refused begins the program from the defaults of the level. -/
theorem eq_begun_of_start {s t : Session} {program : Program} (hne : program ≠ [])
    (h : (s.start program).value = .ok t) : t = begun s.level program := by
  by_cases hs : s.run.phase = .running
  · simp [start, Run.start, hne, hs, Except.map] at h
  · rw [start_eq_ok hne hs] at h
    exact (Except.ok.inj h).symm

/-- All that starting a program can do. -/
theorem perform_start_cases (s : Session) (program : Program) :
    (s.perform (.start program)).2 = s ∧ (program = [] ∨ s.run.phase = .running) ∨
    (s.perform (.start program)).2 = begun s.level program ∧ program ≠ [] ∧
      s.run.phase ≠ .running := by
  by_cases hne : program = []
  · left
    subst hne
    exact ⟨rfl, .inl rfl⟩
  by_cases hs : s.run.phase = .running
  · left
    refine ⟨?_, .inr hs⟩
    simp [perform, start, Run.start, hne, hs, Except.map]
  · right
    refine ⟨?_, hne, hs⟩
    simp only [perform, start_eq_ok hne hs]

/-- No operation changes the level. -/
theorem perform_level (s : Session) (op : Op) : (s.perform op).2.level = s.level := by
  cases op with
  | start program =>
    rcases perform_start_cases s program with ⟨h, -⟩ | ⟨h, -⟩ <;> rw [h]
    rfl
  | tick => rfl
  | reset => rfl
  | drain => rfl

/-- What holds at first and is kept by every operation holds after all operations. -/
theorem preserved {I : Session → Prop} {ops : List Op}
    (hstep : ∀ s, ∀ op ∈ ops, I s → I (s.perform op).2) {s : Session} (h : I s) :
    I (s.performAll ops).2 := by
  induction ops generalizing s with
  | nil => exact h
  | cons op ops ih =>
    have hnext : I (s.perform op).2 := hstep s op List.mem_cons_self h
    exact ih (fun t op' hop => hstep t op' (List.mem_cons_of_mem _ hop)) hnext

/-- If every operation answers in a certain way and keeps an invariant under which it does, so do all
operations in turn. -/
theorem preserved_answers {I : Session → Prop} {A : Answer → Prop}
    (hstep : ∀ s op, I s → A (s.perform op).1 ∧ I (s.perform op).2) {s : Session} (h : I s)
    (ops : List Op) : (∀ a ∈ (s.performAll ops).1, A a) ∧ I (s.performAll ops).2 := by
  induction ops generalizing s with
  | nil => exact ⟨nofun, h⟩
  | cons op ops ih =>
    obtain ⟨hanswer, hnext⟩ := hstep s op h
    obtain ⟨hrest, hlast⟩ := ih hnext
    exact ⟨List.forall_mem_cons.mpr ⟨hanswer, hrest⟩, hlast⟩

theorem performAll_level (s : Session) (ops : List Op) : (s.performAll ops).2.level = s.level := by
  refine preserved (I := fun t => t.level = s.level) (fun t op _ ht => ?_) rfl
  rw [perform_level, ht]

/-! ## One run -/

/-- Whether an operation leaves the run in place: it neither goes back to the start nor starts
another program. -/
def keepsRun (s : Session) : Op → Bool
  | .start program => program.isEmpty || s.isRunning
  | .tick | .drain => true
  | .reset => false

/-- Whether the operations all belong to the run that the session is in. -/
def continues (s : Session) : List Op → Bool
  | [] => true
  | op :: ops => s.keepsRun op && (s.perform op).2.continues ops

/-- Operations belong to one run if the first one does and the others belong to the run after it. -/
theorem continues_cons {s : Session} {op : Op} {ops : List Op} :
    s.continues (op :: ops) ↔ s.keepsRun op ∧ (s.perform op).2.continues ops := by
  simp [continues]

/-- Within a run, a start is passed over or refused and changes nothing. -/
theorem perform_start_of_keepsRun {s : Session} {program : Program}
    (h : s.keepsRun (.start program)) : (s.perform (.start program)).2 = s := by
  rcases perform_start_cases s program with ⟨hs, -⟩ | ⟨-, hne, hidle⟩
  · exact hs
  · simp [keepsRun, isRunning, hne, hidle] at h

/-- A session is prepared for a level that can be played, and for no other. -/
theorem prepare_eq_ok_iff {level : Level} {s : Session} :
    (prepare level).value = .ok s ↔ level.validate = .ok () ∧ s = ⟨level, Run.fresh level⟩ := by
  unfold prepare
  cases level.validate with
  | error failure => simp
  | ok u => simp [eq_comm]

end Seahorse.Session
