import Seahorse.Proofs.Course
import Seahorse.Proofs.Operations

/-!
# The state of a run is the history of its commands

Whatever a host has done with a session, its run agrees with the course of the commands it has
taken: pose, matcher, targets and counters are those of the program up to the cursor, less the last
command if that one was blocked. A tick without a command at the cursor therefore never happens.
-/

namespace Seahorse

theorem Move.outcome_ne_aborted (m : Move) (reason : Violation) (pose : Pose) :
    m.outcome ≠ .aborted reason pose := by
  unfold outcome
  cases m.verdict <;> exact nofun

namespace Run

/-! ## What a tick can do -/

section Tick

variable {level : Level} {run : Run} {c : Command}

/-- Without a program being executed, a tick does nothing. -/
theorem tick_of_not_running (h : run.phase ≠ .running) : run.tick level = (none, run) := by
  simp [tick, next?, h]

/-- A tick on a command that is not allowed stops the run. -/
theorem tick_blocked (h : run.phase = .running) (hc : run.program[run.cursor]? = some c)
    (hblocked : run.allows level c = false) :
    run.tick level = (some (.aborted level.area.violation run.pose),
      run.after (.blocked c level.area.violation)) := by
  simp [tick, next?, h, hc, hblocked, outcome]

/-- A tick on any other command takes it. -/
theorem tick_taken (h : run.phase = .running) (hc : run.program[run.cursor]? = some c)
    (hallowed : run.allows level c = true) :
    run.tick level = (some (run.move level c).outcome, run.after (.taken (run.move level c))) := by
  simp [tick, next?, h, hc, hallowed, outcome]

theorem tick_program (level : Level) (run : Run) : (run.tick level).2.program = run.program := by
  unfold tick
  cases run.next? level with
  | none => rfl
  | some step => cases step <;> rfl

theorem getElem?_cursor_eq_none_iff : run.program[run.cursor]? = none ↔ run.remaining = 0 := by
  rw [List.getElem?_eq_none_iff, remaining, Nat.sub_eq_zero_iff_le]

/-- A tick behind the last command ends the run without a word. -/
theorem tick_ranOut (h : run.phase = .running) (hnone : run.program[run.cursor]? = none) :
    run.tick level = (some (.exhausted run.pose), run.after .ranOut) := by
  simp [tick, next?, h, hnone, outcome]

/-- All that a tick can do to a run in any state. -/
theorem tick_cases (level : Level) (run : Run) :
    run.phase ≠ .running ∧ run.tick level = (none, run) ∨
    run.phase = .running ∧ run.remaining = 0 ∧
      run.tick level = (some (.exhausted run.pose), run.after .ranOut) ∨
    run.phase = .running ∧ 0 < run.remaining ∧ ∃ c,
      run.tick level = (some (.aborted level.area.violation run.pose),
        run.after (.blocked c level.area.violation)) ∨
      run.tick level = (some (run.move level c).outcome, run.after (.taken (run.move level c))) := by
  by_cases hrun : run.phase = .running
  · right
    cases hc : run.program[run.cursor]? with
    | none =>
      left
      exact ⟨hrun, getElem?_cursor_eq_none_iff.mp hc, tick_ranOut hrun hc⟩
    | some c =>
      right
      have hpos : 0 < run.remaining := by
        apply Nat.pos_of_ne_zero
        intro hzero
        rw [getElem?_cursor_eq_none_iff.mpr hzero] at hc
        cases hc
      refine ⟨hrun, hpos, c, ?_⟩
      cases ha : run.allows level c with
      | false => exact .inl (tick_blocked hrun hc ha)
      | true => exact .inr (tick_taken hrun hc ha)
  · exact .inl ⟨hrun, tick_of_not_running hrun⟩

end Tick

/-! ## The commands taken -/

/-- The commands that a run has taken: those up to the cursor, but not one that was blocked. -/
def taken (run : Run) : Program :=
  run.program.take (if run.phase = .aborted then run.cursor - 1 else run.cursor)

/-- The run agrees with the course of the commands it has taken. -/
structure History (level : Level) (run : Run) : Prop where
  cursor_le : run.cursor ≤ run.program.length
  ticks_eq : run.ticks = run.cursor
  cursor_lt_of_running : run.phase = .running → run.cursor < run.program.length
  cursor_pos_of_terminal : run.phase = .aborted ∨ run.phase = .completed → 1 ≤ run.cursor
  cursor_eq_of_idle : run.phase = .idle → run.cursor = run.program.length
  pose_eq : run.pose = level.poseAfter run.taken
  matcher_eq : run.matcher = level.matcherAfter run.taken
  targets_eq : run.targets = level.targetsAfter run.taken
  forwardSteps_eq : run.forwardSteps = run.taken.count .forward

section Taken

variable {level : Level} {run : Run} {c : Command}

theorem taken_of_running (h : run.phase = .running) : run.taken = run.program.take run.cursor := by
  simp [taken, h]

theorem verdict_phase_ne_aborted (v : Verdict) : v.phase ≠ .aborted := by
  cases v <;> simp [Verdict.phase]

/-- A blocked command is not among the commands taken. -/
theorem taken_after_blocked (h : run.phase = .running) {reason : Violation} :
    (run.after (.blocked c reason)).taken = run.taken := by
  simp [taken, after, h]

/-- A command that is taken comes behind those taken before. -/
theorem taken_after_taken (h : run.phase = .running) (hc : run.program[run.cursor]? = some c)
    (m : Move) : (run.after (.taken m)).taken = run.taken ++ [c] := by
  simp [taken, after, verdict_phase_ne_aborted, h, List.take_add_one, hc]

end Taken

/-! ## Every operation keeps the history -/

namespace History

variable {level : Level} {run : Run} {c : Command}

theorem fresh (level : Level) : History level (Run.fresh level) where
  cursor_le := le_rfl
  ticks_eq := rfl
  cursor_lt_of_running := nofun
  cursor_pos_of_terminal := nofun
  cursor_eq_of_idle := fun _ => rfl
  pose_eq := rfl
  matcher_eq := rfl
  targets_eq := rfl
  forwardSteps_eq := rfl

theorem begun (level : Level) {program : Program} (hne : program ≠ []) :
    History level (Session.begun level program).run where
  cursor_le := Nat.zero_le _
  ticks_eq := rfl
  cursor_lt_of_running := fun _ => List.length_pos_iff.mpr hne
  cursor_pos_of_terminal := nofun
  cursor_eq_of_idle := nofun
  pose_eq := rfl
  matcher_eq := rfl
  targets_eq := rfl
  forwardSteps_eq := rfl

theorem drain (h : History level run) : History level { run with events := [] } :=
  { h with }

/-- While a program is being executed there is a next command. -/
theorem exists_command (h : History level run) (hrun : run.phase = .running) :
    ∃ c, run.program[run.cursor]? = some c :=
  ⟨_, List.getElem?_eq_getElem (h.cursor_lt_of_running hrun)⟩

/-- A blocked command is not taken, and the rest stays as it was. -/
theorem after_blocked (h : History level run) (hrun : run.phase = .running) (c : Command)
    (reason : Violation) :
    History level (run.after (.blocked c reason)) where
  cursor_le := h.cursor_lt_of_running hrun
  ticks_eq := congrArg (· + 1) h.ticks_eq
  cursor_lt_of_running := nofun
  cursor_pos_of_terminal := fun _ => Nat.le_add_left _ _
  cursor_eq_of_idle := nofun
  pose_eq := by rw [taken_after_blocked hrun]; exact h.pose_eq
  matcher_eq := by rw [taken_after_blocked hrun]; exact h.matcher_eq
  targets_eq := by rw [taken_after_blocked hrun]; exact h.targets_eq
  forwardSteps_eq := by rw [taken_after_blocked hrun]; exact h.forwardSteps_eq

theorem move_pose (h : History level run) (c : Command) :
    (run.move level c).pose = level.poseAfter (run.taken ++ [c]) := by
  rw [Level.poseAfter_concat, ← h.pose_eq]
  rfl

theorem move_matcher (h : History level run) (c : Command) :
    (run.move level c).matcher = level.matcherAfter (run.taken ++ [c]) := by
  rw [Level.matcherAfter_concat, ← h.matcher_eq]
  rfl

theorem move_targets (h : History level run) (c : Command) :
    (run.move level c).targets = level.targetsAfter (run.taken ++ [c]) := by
  rw [Level.targetsAfter_concat, ← h.targets_eq, ← h.move_pose]
  rfl

/-- How a command leaves the run depends on the commands taken and on whether it is the last. -/
theorem move_verdict (h : History level run) (c : Command) :
    (run.move level c).verdict =
      if level.completion.isMet
          ((level.matcherAfter (run.taken ++ [c])).isSatisfied level.objective)
          (Target.allRequiredCollected (level.targetsAfter (run.taken ++ [c])))
          (run.program.length ≤ run.cursor + 1) then .completes
      else if run.program.length ≤ run.cursor + 1 then .exhausts
      else .continues := by
  rw [← h.move_matcher, ← h.move_targets]
  simp [move]

/-- A command that is taken adds to the history. -/
theorem after_taken (h : History level run) (hrun : run.phase = .running)
    (hc : run.program[run.cursor]? = some c) :
    History level (run.after (.taken (run.move level c))) := by
  have hlt := h.cursor_lt_of_running hrun
  have htaken := taken_after_taken hrun hc (run.move level c)
  -- the verdict ties the phase to the commands that are left
  have hphase : ∀ p, (run.move level c).verdict.phase = p →
      (p = .running → run.cursor + 1 < run.program.length) ∧
      (p = .idle → run.cursor + 1 = run.program.length) := by
    intro p hp
    rw [h.move_verdict] at hp
    subst hp
    split_ifs with hmet hdone
    · exact ⟨nofun, nofun⟩
    · exact ⟨nofun, fun _ => by omega⟩
    · exact ⟨fun _ => by omega, nofun⟩
  refine
    { cursor_le := hlt
      ticks_eq := congrArg (· + 1) h.ticks_eq
      cursor_lt_of_running := fun hp => (hphase _ hp).1 rfl
      cursor_pos_of_terminal := fun _ => Nat.le_add_left _ _
      cursor_eq_of_idle := fun hp => (hphase _ hp).2 rfl
      pose_eq := ?_
      matcher_eq := ?_
      targets_eq := ?_
      forwardSteps_eq := ?_ }
  · rw [htaken]; exact h.move_pose c
  · rw [htaken]; exact h.move_matcher c
  · rw [htaken]; exact h.move_targets c
  · rw [htaken, List.count_append, ← h.forwardSteps_eq]
    show (if c = .forward then run.forwardSteps + 1 else run.forwardSteps) = _
    by_cases hf : c = .forward <;> simp [hf]

/-- All that a tick can do: nothing, block the command at the cursor, or take it. -/
theorem tick_cases (h : History level run) :
    run.phase ≠ .running ∧ run.tick level = (none, run) ∨
    ∃ c, run.phase = .running ∧ run.program[run.cursor]? = some c ∧
      (run.allows level c = false ∧
        run.tick level = (some (.aborted level.area.violation run.pose),
          run.after (.blocked c level.area.violation)) ∨
      run.allows level c = true ∧
        run.tick level =
          (some (run.move level c).outcome, run.after (.taken (run.move level c)))) := by
  by_cases hrun : run.phase = .running
  · right
    obtain ⟨c, hc⟩ := h.exists_command hrun
    refine ⟨c, hrun, hc, ?_⟩
    cases ha : run.allows level c with
    | false => exact .inl ⟨rfl, tick_blocked hrun hc ha⟩
    | true => exact .inr ⟨rfl, tick_taken hrun hc ha⟩
  · exact .inl ⟨hrun, tick_of_not_running hrun⟩

/-- **Step.** A tick keeps the history. -/
theorem tick (h : History level run) : History level (run.tick level).2 := by
  rcases h.tick_cases with ⟨-, ht⟩ | ⟨c, hrun, hc, ⟨-, ht⟩ | ⟨-, ht⟩⟩ <;> rw [ht]
  · exact h
  · exact h.after_blocked hrun c _
  · exact h.after_taken hrun hc

/-- **Step.** Every operation keeps the history. -/
theorem perform {s : Session} (h : History s.level s.run) (op : Session.Op) :
    History (s.perform op).2.level (s.perform op).2.run := by
  cases op with
  | start program =>
    rcases s.perform_start_cases program with ⟨hs, -⟩ | ⟨hs, hne, -⟩ <;> rw [hs]
    · exact h
    · exact begun s.level hne
  | tick => exact h.tick
  | reset => exact fresh s.level
  | drain => exact h.drain

/-- **Run.** After any operations, the run agrees with the course of the commands it has taken. -/
theorem performAll {s : Session} (h : History s.level s.run) (ops : List Session.Op) :
    History s.level (s.performAll ops).2.run := by
  have hall : History (s.performAll ops).2.level (s.performAll ops).2.run :=
    Session.preserved (I := fun t => History t.level t.run) (fun t op _ ht => ht.perform op) h
  rwa [Session.performAll_level] at hall

/-- The counters of a run do not exceed the length of its program. -/
theorem counters_le (h : History level run) :
    run.ticks ≤ run.program.length ∧ run.forwardSteps ≤ run.program.length := by
  refine ⟨h.ticks_eq.trans_le h.cursor_le, ?_⟩
  rw [h.forwardSteps_eq]
  exact le_trans List.count_le_length (List.take_sublist _ _).length_le

end History

end Run

namespace Session

theorem history_of_prepare {level : Level} {s : Session} (hs : (prepare level).value = .ok s)
    (ops : List Op) : Run.History level (s.performAll ops).2.run := by
  obtain ⟨-, rfl⟩ := prepare_eq_ok_iff.mp hs
  exact Run.History.performAll (s := ⟨level, Run.fresh level⟩) (Run.History.fresh level) ops

/-- What holds of a run before and at the start of a program, and is kept by ticks and by draining,
holds after all operations on a prepared session. -/
theorem run_induction {level : Level} {s : Session} (hs : (prepare level).value = .ok s)
    {I : Run → Prop} (hfresh : I (Run.fresh level))
    (hbegun : ∀ program, I (begun level program).run)
    (htick : ∀ run, Run.History level run → I run → I (run.tick level).2)
    (hdrain : ∀ run, I run → I { run with events := [] }) (ops : List Op) :
    I (s.performAll ops).2.run := by
  obtain ⟨-, rfl⟩ := prepare_eq_ok_iff.mp hs
  refine (preserved (I := fun t => t.level = level ∧ t.run.History level ∧ I t.run)
    (fun t op _ ht => ?_) ⟨rfl, Run.History.fresh level, hfresh⟩).2.2
  obtain ⟨rfl, hhist, hI⟩ := ht
  have hlevel : (t.perform op).2.level = t.level := perform_level t op
  refine ⟨hlevel, hlevel ▸ hhist.perform op, ?_⟩
  cases op with
  | start program =>
    rcases t.perform_start_cases program with ⟨h, -⟩ | ⟨h, -⟩ <;> rw [h]
    · exact hI
    · exact hbegun program
  | tick => exact htick t.run hhist hI
  | reset => exact hfresh
  | drain => exact hdrain t.run hI

/-- A program that is being executed, or was executed last, is one that was started. -/
theorem program_length_lt {s : Session} {ops : List Op} {n : Nat} (hs : s.run.program.length < n)
    (hops : ∀ program, .start program ∈ ops → program.length < n) :
    (s.performAll ops).2.run.program.length < n := by
  refine preserved (I := fun t => t.run.program.length < n) (fun t op hop ht => ?_) hs
  cases op with
  | start program =>
    rcases t.perform_start_cases program with ⟨h, -⟩ | ⟨h, -⟩ <;> rw [h]
    · exact ht
    · exact hops program hop
  | tick =>
    rwa [perform_tick, ticked_run, Run.tick_program]
  | reset => exact Nat.zero_lt_of_lt hs
  | drain => exact ht

/-- After any operations on a session, its run is what the commands taken have made of it. The
counters start at zero with every reset, stay below `2³²` as long as the programs are shorter than
that, and a command that aborts a run changes nothing but the phase, the cursor, the number of ticks
and the events. -/
theorem history_of_operations {level : Level} {s : Session} (hs : (prepare level).value = .ok s)
    (ops : List Op) :
    let t := (s.performAll ops).2
    t.level = level ∧ t.run.History level ∧
    (s.run.cursor = 0 ∧ s.run.program.length = 0) ∧
    (t.reset.value.run.cursor = 0 ∧ t.reset.value.run.program.length = 0) ∧
    (∀ reason pose, t.tick.value.1 = some (.aborted reason pose) →
      t.ticked.run =
        { t.run with
          phase := .aborted
          cursor := t.run.cursor + 1
          ticks := t.run.ticks + 1
          events := t.run.events ++ [.aborted reason reason.message] }) ∧
    ((∀ program, .start program ∈ ops → program.length < UInt32.size) →
      t.run.ticks < UInt32.size ∧ t.run.forwardSteps < UInt32.size) := by
  intro t
  have hhist : t.run.History level := history_of_prepare hs ops
  obtain ⟨-, rfl⟩ := prepare_eq_ok_iff.mp hs
  have hlevel : t.level = level := performAll_level _ ops
  refine ⟨hlevel, hhist, ⟨rfl, rfl⟩, ⟨rfl, rfl⟩, ?_, ?_⟩
  · intro reason pose habort
    rw [tick_outcome, hlevel] at habort
    rw [ticked_run, hlevel]
    rcases hhist.tick_cases with ⟨-, ht⟩ | ⟨c, -, -, ⟨-, ht⟩ | ⟨-, ht⟩⟩ <;> rw [ht] at habort ⊢
    · cases habort
    · obtain ⟨rfl, rfl⟩ : level.area.violation = reason ∧ t.run.pose = pose := by simpa using habort
      rfl
    · exact absurd (Option.some.inj habort) (Move.outcome_ne_aborted _ _ _)
  · intro hops
    have hlen : t.run.program.length < UInt32.size :=
      program_length_lt (show 0 < UInt32.size by decide) hops
    exact hhist.counters_le.imp (·.trans_lt hlen) (·.trans_lt hlen)

/-- On the walkway, a run that is aborted and started again after a reset. -/
theorem history_of_operations_theBend :
    let s : Session := ⟨Level.theBend, Run.fresh Level.theBend⟩
    let ops : List Op := [.start [.forward, .turnLeft, .forward], .tick, .tick, .drain, .tick,
      .reset, .start [.forward], .start [.wait], .tick]
    (prepare Level.theBend).value = .ok s ∧
      (s.performAll ops).2.run.History Level.theBend ∧
      (s.performAll ops).2.run.ticks < UInt32.size := by
  intro s ops
  have hs : (prepare Level.theBend).value = .ok s :=
    prepare_eq_ok_iff.mpr ⟨Level.validate_builtin _ (by simp [Level.builtins]), rfl⟩
  obtain ⟨-, hhist, -, -, -, hsize⟩ := history_of_operations hs ops
  refine ⟨hs, hhist, (hsize ?_).1⟩
  intro program hprogram
  simp [ops] at hprogram
  rcases hprogram with rfl | rfl | rfl <;> decide

end Session

end Seahorse
