import Mathlib.Order.Bounds.Basic
import Seahorse.Proofs.History

/-!
# What a program comes to

The outcomes of a program on a level can be read off its course, without running it. The run goes on
up to the first command that would leave the legal area, solves the level, or is the last one; that
command decides how it ends. Ticking a session after a start gives exactly these outcomes, and
nothing after them.
-/

namespace Seahorse

/-! ## The outcomes, read off the course -/

namespace Level

/-- Whether the command at index `i` changes the position and leads off the legal area. The stage
that counts is that of the commands before it. -/
def isIllegal (level : Level) (program : Program) (i : Nat) : Bool :=
  match program[i]? with
  | none => false
  | some c =>
    c.isStep && !level.area.allows (level.poseAfter (program.take (i + 1))).position
      (level.objective.groupsDone (program.take i))

/-- Whether the level is solved with the command at index `i`. -/
def isMet (level : Level) (program : Program) (i : Nat) : Bool :=
  level.completion.isMet (level.objective.isPerformed (program.take (i + 1)))
    (level.targets.all fun t => !t.required || level.reaches (program.take (i + 1)) t)
    (i + 1 = program.length)

/-- Whether the run ends with the command at index `i`. -/
def ends (level : Level) (program : Program) (i : Nat) : Bool :=
  level.isIllegal program i || level.isMet program i || i + 1 = program.length

/-- The outcome of a run that ends with the command at index `k`. -/
def ending (level : Level) (program : Program) (k : Nat) : Outcome :=
  if level.isIllegal program k then
    .aborted level.area.violation (level.poseAfter (program.take k))
  else if level.isMet program k then
    .completed (level.poseAfter (program.take (k + 1)))
      ((level.targets.filter (level.reaches (program.take (k + 1)))).map (·.name))
  else .exhausted (level.poseAfter (program.take (k + 1)))

/-- The outcome of the command at index `i`, if the run comes to it. -/
def outcomeAt (level : Level) (program : Program) (i : Nat) : Outcome :=
  if level.ends program i then level.ending program i
  else .continued (level.poseAfter (program.take (i + 1)))

theorem isContinued_outcomeAt (level : Level) (program : Program) (i : Nat) :
    (level.outcomeAt program i).isContinued = !level.ends program i := by
  unfold outcomeAt ending
  split_ifs with h <;> simp [Outcome.isContinued, h]

end Level

/-! ## One tick -/

namespace Run.History

variable {level : Level} {run : Run} {c : Command}

theorem taken_concat (hrun : run.phase = .running) (hc : run.program[run.cursor]? = some c) :
    run.taken ++ [c] = run.program.take (run.cursor + 1) := by
  rw [taken_of_running hrun, List.take_add_one, hc, Option.toList_some]

/-- A command is allowed exactly when it is not illegal on the course. -/
theorem allows_eq (h : History level run) (ho : level.objective.IsPlayable)
    (hrun : run.phase = .running) (hc : run.program[run.cursor]? = some c) :
    run.allows level c = !level.isIllegal run.program run.cursor := by
  have hpeak : run.matcher.peakStage =
      level.objective.groupsDone (run.program.take run.cursor) := by
    rw [h.matcher_eq, taken_of_running hrun]
    exact Matcher.peakStage_feedAll ho _
  have hpose : run.pose.step c level.stepDistance =
      level.poseAfter (run.program.take (run.cursor + 1)) := by
    rw [h.pose_eq, ← Level.poseAfter_concat, taken_concat hrun hc]
  unfold allows Level.isIllegal
  rw [hc, hpose, hpeak, Bool.not_and, Bool.not_not]

theorem isMet_eq (ho : level.objective.IsPlayable) (hlt : run.cursor < run.program.length) :
    level.completion.isMet
        ((level.matcherAfter (run.program.take (run.cursor + 1))).isSatisfied level.objective)
        (Target.allRequiredCollected (level.targetsAfter (run.program.take (run.cursor + 1))))
        (run.program.length ≤ run.cursor + 1) = level.isMet run.program run.cursor := by
  have hdone : decide (run.program.length ≤ run.cursor + 1) =
      decide (run.cursor + 1 = run.program.length) := by
    rw [decide_eq_decide]
    omega
  unfold Level.isMet
  rw [Level.matcherAfter, Matcher.isSatisfied_feedAll ho, Level.allRequiredCollected_targetsAfter,
    hdone]

theorem move_verdict_eq (h : History level run) (ho : level.objective.IsPlayable)
    (hrun : run.phase = .running) (hc : run.program[run.cursor]? = some c) :
    (run.move level c).verdict =
      if level.isMet run.program run.cursor then .completes
      else if run.cursor + 1 = run.program.length then .exhausts
      else .continues := by
  have hlt := h.cursor_lt_of_running hrun
  have hdone : run.program.length ≤ run.cursor + 1 ↔ run.cursor + 1 = run.program.length := by omega
  rw [h.move_verdict, taken_concat hrun hc, isMet_eq ho hlt]
  simp only [hdone]

/-- A command that is taken has the outcome that the course gives, and the run goes on unless the
command ends it. -/
theorem move_outcome_eq (h : History level run) (ho : level.objective.IsPlayable)
    (hrun : run.phase = .running) (hc : run.program[run.cursor]? = some c)
    (hlegal : level.isIllegal run.program run.cursor = false) :
    (run.move level c).outcome = level.outcomeAt run.program run.cursor ∧
    ((run.move level c).verdict.phase = .running ↔ level.ends run.program run.cursor = false) := by
  have hverdict := h.move_verdict_eq ho hrun hc
  have hpose := h.move_pose c
  have htargets := h.move_targets c
  rw [taken_concat hrun hc] at hpose htargets
  unfold Move.outcome Level.outcomeAt Level.ends Level.ending
  rw [hverdict, hpose, htargets, Level.collectedNames_targetsAfter, hlegal]
  by_cases hmet : level.isMet run.program run.cursor = true
  · simp [hmet, Verdict.phase]
  · by_cases hlast : run.cursor + 1 = run.program.length
    · simp [hmet, hlast, Verdict.phase]
    · simp [hmet, hlast, Verdict.phase]

/-- **Step.** A tick gives the outcome that the course has at the cursor, and the run goes on
exactly when the command there does not end it. -/
theorem tick_eq (h : History level run) (ho : level.objective.IsPlayable)
    (hrun : run.phase = .running) :
    (run.tick level).1 = some (level.outcomeAt run.program run.cursor) ∧
    ((run.tick level).2.phase = .running ↔ level.ends run.program run.cursor = false) ∧
    (run.tick level).2.cursor = run.cursor + 1 := by
  rcases h.tick_cases with ⟨hnot, -⟩ | ⟨c, -, hc, ⟨ha, ht⟩ | ⟨ha, ht⟩⟩
  · exact absurd hrun hnot
  · have hillegal : level.isIllegal run.program run.cursor = true := by
      simpa [h.allows_eq ho hrun hc] using ha
    have hpose : run.pose = level.poseAfter (run.program.take run.cursor) := by
      rw [h.pose_eq, taken_of_running hrun]
    rw [ht]
    refine ⟨?_, ?_, rfl⟩
    · simp [Level.outcomeAt, Level.ends, Level.ending, hillegal, hpose]
    · simp [Level.ends, hillegal, after]
  · have hlegal : level.isIllegal run.program run.cursor = false := by
      simpa [h.allows_eq ho hrun hc] using ha
    obtain ⟨hout, hphase⟩ := h.move_outcome_eq ho hrun hc hlegal
    rw [ht]
    exact ⟨congrArg some hout, hphase, rfl⟩

end Run.History

/-! ## All ticks of a run -/

namespace Session

theorem ticks_succ_of_ended {s : Session} {o : Outcome} (count : Nat) (ht : s.tick.value.1 = some o)
    (ho : o.isContinued = false) : (s.ticks (count + 1)).value = ([o], s.ticked) := by
  rw [ticks, Logged.value_bind]
  rcases hs : s.tick.value with ⟨answer, t⟩
  obtain rfl : answer = some o := by rw [← ht, hs]
  simp [ticked, hs, ho]

theorem ticks_succ_of_continued {s : Session} {o : Outcome} (count : Nat)
    (ht : s.tick.value.1 = some o) (ho : o.isContinued = true) :
    (s.ticks (count + 1)).value =
      (o :: (s.ticked.ticks count).value.1, (s.ticked.ticks count).value.2) := by
  rw [ticks, Logged.value_bind]
  rcases hs : s.tick.value with ⟨answer, t⟩
  obtain rfl : answer = some o := by rw [← ht, hs]
  simp [ticked, hs, ho]

/-- The answers to so many ticks in a row. -/
def answers (s : Session) (count : Nat) : List (Option Outcome) :=
  (List.range count).map fun i => (ticked^[i] s).tick.value.1

theorem answers_add (s : Session) (m n : Nat) :
    s.answers (m + n) = s.answers m ++ (ticked^[m] s).answers n := by
  unfold answers
  rw [List.range_add, List.map_append, List.map_map]
  congr 1
  refine List.map_congr_left fun i _ => ?_
  rw [Function.comp_apply, Nat.add_comm, Function.iterate_add_apply]

theorem ticked_of_tick_eq_none {s : Session} (h : s.tick.value.1 = none) : s.ticked = s := by
  have hrun : (s.run.tick s.level).2 = s.run := by
    rw [tick_outcome] at h
    unfold Run.tick at h ⊢
    cases hnext : s.run.next? s.level with
    | none => rfl
    | some step => simp [hnext] at h
  show (⟨s.level, (s.run.tick s.level).2⟩ : Session) = s
  rw [hrun]

/-- Several ticks at once are plain ticks in a row, up to the first one that ends the run. -/
theorem ticks_eq_iterate (count : Nat) (s : Session) :
    ∃ m ≤ count, (s.ticks count).value.2 = ticked^[m] s ∧
      (s.ticks count).value.1.map some = s.answers m ∧
      ∀ o ∈ (s.ticks count).value.1.dropLast, o.isContinued = true := by
  induction count generalizing s with
  | zero => exact ⟨0, le_rfl, rfl, rfl, nofun⟩
  | succ count ih =>
    cases ht : s.tick.value.1 with
    | none =>
      have hvalue : (s.ticks (count + 1)).value = ([], s) := by
        rw [ticks, Logged.value_bind]
        have hpair : s.tick.value = (none, s) := Prod.ext ht (ticked_of_tick_eq_none ht)
        rw [hpair]
        rfl
      rw [hvalue]
      exact ⟨0, Nat.zero_le _, rfl, rfl, nofun⟩
    | some o =>
      cases ho : o.isContinued with
      | false =>
        rw [ticks_succ_of_ended count ht ho]
        refine ⟨1, by omega, rfl, ?_, nofun⟩
        rw [List.map_singleton, ← ht]
        rfl
      | true =>
        obtain ⟨m, hm, hstate, hanswers, hgo⟩ := ih s.ticked
        rw [ticks_succ_of_continued count ht ho]
        refine ⟨m + 1, by omega, ?_, ?_, ?_⟩
        · rw [Function.iterate_succ_apply]
          exact hstate
        · rw [Nat.add_comm m 1, answers_add, List.map_cons, hanswers, ← ht]
          rfl
        · intro o' ho'
          cases hrest : (s.ticked.ticks count).value.1 with
          | nil => simp [hrest] at ho'
          | cons x xs =>
            rw [hrest] at hgo ho'
            rw [List.dropLast_cons_cons] at ho'
            rcases List.mem_cons.mp ho' with rfl | ho'
            · exact ho
            · exact hgo o' ho'

/-- A run that ends with its tick number `k` is executed in `k + 1` ticks. -/
theorem ticks_value {k : Nat} : ∀ (s : Session) (o : Nat → Outcome) (count : Nat), k < count →
    (∀ i ≤ k, (ticked^[i] s).tick.value.1 = some (o i)) → (∀ i < k, (o i).isContinued = true) →
    (o k).isContinued = false →
    (s.ticks count).value = ((List.range (k + 1)).map o, ticked^[k + 1] s) := by
  induction k with
  | zero =>
    intro s o count hcount ht _ hlast
    have hfirst : s.tick.value.1 = some (o 0) := ht 0 le_rfl
    obtain ⟨count, rfl⟩ := Nat.exists_eq_add_one.mpr hcount
    rw [ticks_succ_of_ended count hfirst hlast]
    rfl
  | succ k ih =>
    intro s o count hcount ht hgo hlast
    have hfirst : s.tick.value.1 = some (o 0) := ht 0 (by omega)
    obtain ⟨count, rfl⟩ : ∃ n, count = n + 1 := ⟨count - 1, by omega⟩
    have hrest := ih s.ticked (fun i => o (i + 1)) count (by omega)
      (fun i hi => by rw [← Function.iterate_succ_apply]; exact ht (i + 1) (by omega))
      (fun i hi => hgo (i + 1) (by omega)) hlast
    have hrange : (List.range (k + 1 + 1)).map o =
        o 0 :: (List.range (k + 1)).map fun i => o (i + 1) := by
      rw [List.range_succ_eq_map, List.map_cons, List.map_map]
      rfl
    rw [ticks_succ_of_continued count hfirst (hgo 0 (by omega)), hrest, hrange]
    rfl

/-- A session that executes a program and has come to the command at index `i`. -/
structure IsAt (level : Level) (program : Program) (i : Nat) (s : Session) : Prop where
  level_eq : s.level = level
  program_eq : s.run.program = program
  running : s.run.phase = .running
  cursor_eq : s.run.cursor = i
  history : s.run.History level

theorem isAt_begun (level : Level) {program : Program} (hne : program ≠ []) :
    IsAt level program 0 (begun level program) :=
  ⟨rfl, rfl, rfl, rfl, .begun level hne⟩

section IsAt

variable {level : Level} {program : Program} {i : Nat} {s : Session}

theorem IsAt.outcome (h : IsAt level program i s) (ho : level.objective.IsPlayable) :
    s.tick.value.1 = some (level.outcomeAt program i) := by
  rw [tick_outcome, h.level_eq, (h.history.tick_eq ho h.running).1, h.program_eq, h.cursor_eq]

/-- A tick leads to the next command unless the command at the cursor ends the run. -/
theorem IsAt.ticked (h : IsAt level program i s) (ho : level.objective.IsPlayable)
    (hgo : level.ends program i = false) : IsAt level program (i + 1) s.ticked := by
  obtain ⟨-, hphase, hcursor⟩ := h.history.tick_eq ho h.running
  rw [h.program_eq, h.cursor_eq] at hphase
  refine ⟨h.level_eq, ?_, ?_, ?_, ?_⟩
  · rw [ticked_run, Run.tick_program, h.program_eq]
  · rw [ticked_run, h.level_eq]
    exact hphase.mpr hgo
  · rw [ticked_run, h.level_eq, hcursor, h.cursor_eq]
  · rw [ticked_run, h.level_eq]
    exact h.history.tick

theorem IsAt.ended (h : IsAt level program i s) (ho : level.objective.IsPlayable)
    (hend : level.ends program i = true) : s.ticked.run.phase ≠ .running := by
  obtain ⟨-, hphase, -⟩ := h.history.tick_eq ho h.running
  rw [h.program_eq, h.cursor_eq] at hphase
  rw [ticked_run, h.level_eq, ne_eq, hphase, hend]
  exact Bool.noConfusion

/-- **Run.** As long as no command ends the run, every tick leads to the next one. -/
theorem IsAt.iterate (h : IsAt level program 0 s) (ho : level.objective.IsPlayable) {m : Nat}
    (hgo : ∀ i < m, level.ends program i = false) :
    IsAt level program m (Session.ticked^[m] s) := by
  induction m with
  | zero => exact h
  | succ m ih =>
    rw [Function.iterate_succ_apply']
    exact (ih fun i hi => hgo i (by omega)).ticked ho (hgo m (by omega))

end IsAt

theorem iterate_ticked_of_not_running {s : Session} (h : s.run.phase ≠ .running) (m : Nat) :
    ticked^[m] s = s := by
  have hone : s.ticked = s := by
    unfold ticked tick
    simp [Run.tick_of_not_running h]
  exact Function.iterate_fixed hone m

section Begun

variable {level : Level} {program : Program} {k : Nat}

/-- Some command ends the run, as the last one does. -/
theorem exists_isLeast_ends (level : Level) (hne : program ≠ []) :
    ∃ k, k < program.length ∧ IsLeast {i | level.ends program i = true} k := by
  have hpos : 0 < program.length := List.length_pos_iff.mpr hne
  have hlast : level.ends program (program.length - 1) = true := by
    have : program.length - 1 + 1 = program.length := by omega
    simp [Level.ends, this]
  have hex : ∃ i, level.ends program i = true := ⟨_, hlast⟩
  refine ⟨Nat.find hex, ?_, Nat.find_spec hex, fun i hi => Nat.find_min' hex hi⟩
  have hle := Nat.find_min' hex hlast
  omega

theorem ends_eq_false (hk : IsLeast {i | level.ends program i = true} k) {i : Nat} (hi : i < k) :
    level.ends program i = false := by
  by_contra hend
  have hle : k ≤ i := hk.2 (by simpa using hend)
  omega

/-- The answers to all ticks after a start. -/
theorem tick_iterate_begun (ho : level.objective.IsPlayable) (hne : program ≠ [])
    (hk : IsLeast {i | level.ends program i = true} k) (m : Nat) :
    (ticked^[m] (begun level program)).tick.value.1 =
      if m ≤ k then some (level.outcomeAt program m) else none := by
  have hstart := isAt_begun level hne
  split_ifs with hm
  · have hat := hstart.iterate ho (m := m) fun i hi => ends_eq_false hk (by omega)
    exact hat.outcome ho
  · -- the run is over after the tick number `k`, and later ticks leave it so
    have hover : (ticked^[k + 1] (begun level program)).run.phase ≠ .running := by
      rw [Function.iterate_succ_apply']
      exact (hstart.iterate ho fun i hi => ends_eq_false hk hi).ended ho hk.1
    obtain ⟨n, rfl⟩ : ∃ n, m = n + (k + 1) := ⟨m - (k + 1), by omega⟩
    rw [Function.iterate_add_apply, iterate_ticked_of_not_running hover, tick_outcome,
      Run.tick_of_not_running hover]

/-- Executing a program to its end gives the outcomes up to the one that ends it. -/
theorem finish_begun (ho : level.objective.IsPlayable) (hne : program ≠ [])
    (hk : IsLeast {i | level.ends program i = true} k) (hlt : k < program.length) :
    (begun level program).finish.value =
      ((List.range (k + 1)).map (level.outcomeAt program),
        ticked^[k + 1] (begun level program)) := by
  have hpos : 0 < program.length := List.length_pos_iff.mpr hne
  have hremaining : (begun level program).run.remaining = program.length := rfl
  rw [finish, hremaining, Nat.max_eq_right hpos]
  refine ticks_value _ _ _ hlt (fun i hi => ?_) (fun i hi => ?_) ?_
  · rw [tick_iterate_begun ho hne hk, if_pos hi]
  · rw [Level.isContinued_outcomeAt, ends_eq_false hk hi, Bool.not_false]
  · have hend : level.ends program k = true := hk.1
    rw [Level.isContinued_outcomeAt, hend, Bool.not_true]

end Begun

/-- **A program comes to what its course says.** On a level that can be played, let `k` be the first
index whose command is illegal, solves the level, or is the last of the program. A start is accepted
whenever nothing is being executed; the ticks after it then go on through the poses of the course
`k` times, end with the command at index `k`, and answer nothing from then on. Executing to the end
gives the same outcomes. -/
theorem outcomes_after_start (s : Session) (program : Program) (hlevel : s.level.validate = .ok ())
    (hne : program ≠ []) (hidle : s.run.phase ≠ .running) :
    ∃ t k, (s.start program).value = .ok t ∧
      IsLeast
        {i | s.level.isIllegal program i ∨ s.level.isMet program i ∨ i = program.length - 1} k ∧
      (∀ m, (ticked^[m] t).tick.value.1 =
        if m < k then some (.continued (s.level.poseAfter (program.take (m + 1))))
        else if m = k then some (s.level.ending program k)
        else none) ∧
      t.finish.value.1 =
        (List.range k).map (fun m => .continued (s.level.poseAfter (program.take (m + 1)))) ++
          [s.level.ending program k] := by
  have ho : s.level.objective.IsPlayable := Level.objective_isPlayable hlevel
  have hpos : 0 < program.length := List.length_pos_iff.mpr hne
  obtain ⟨k, hlt, hk⟩ := exists_isLeast_ends s.level hne
  have hset : {i | s.level.ends program i = true} =
      {i | s.level.isIllegal program i ∨ s.level.isMet program i ∨ i = program.length - 1} := by
    ext i
    have hlast : i + 1 = program.length ↔ i = program.length - 1 := by omega
    simp [Level.ends, hlast, or_assoc]
  have hgo : ∀ m < k, s.level.outcomeAt program m =
      .continued (s.level.poseAfter (program.take (m + 1))) := fun m hm =>
    if_neg (by rw [ends_eq_false hk hm]; exact Bool.noConfusion)
  have hlast : s.level.outcomeAt program k = s.level.ending program k := if_pos hk.1
  refine ⟨begun s.level program, k, start_eq_ok hne hidle, hset ▸ hk, fun m => ?_, ?_⟩
  · rw [tick_iterate_begun ho hne hk]
    rcases lt_trichotomy m k with hm | rfl | hm
    · rw [if_pos hm.le, if_pos hm, hgo m hm]
    · rw [if_pos le_rfl, if_neg (lt_irrefl _), if_pos rfl, hlast]
    · rw [if_neg (by omega), if_neg (by omega), if_neg (by omega)]
  · have hmap : (List.range k).map (s.level.outcomeAt program) =
        (List.range k).map fun m => .continued (s.level.poseAfter (program.take (m + 1))) :=
      List.map_congr_left fun m hm => hgo m (List.mem_range.mp hm)
    rw [finish_begun ho hne hk hlt, List.range_succ, List.map_append, List.map_singleton, hlast,
      hmap]

/-- On the walkway: a program that performs the objective, goes on along the column and is blocked
when it turns off it. -/
theorem outcomes_after_start_theBend :
    let program : Program :=
      [.forward, .forward, .wait, .forward, .turnRight, .forward, .turnLeft, .forward, .wait]
    let s : Session := ⟨Level.theBend, Run.fresh Level.theBend⟩
    s.level.validate = .ok () ∧ program ≠ [] ∧ s.run.phase ≠ .running ∧
      ∃ t, (s.start program).value = .ok t ∧
        (ticked^[7] t).tick.value.1 = some (s.level.ending program 7) ∧
        (ticked^[8] t).tick.value.1 = none := by
  intro program s
  have hlevel : s.level.validate = .ok () := Level.validate_builtin _ (by simp [s, Level.builtins])
  have hidle : s.run.phase ≠ .running := by decide
  obtain ⟨t, k, hstart, hleast, hticks, -⟩ :=
    outcomes_after_start s program hlevel (by decide) hidle
  have hseven : k = 7 := by
    refine hleast.unique ⟨by decide +kernel, fun i hi => ?_⟩
    by_contra hlt
    have hnone : ∀ i < 7, ¬ (Level.theBend.isIllegal program i ∨ Level.theBend.isMet program i ∨
        i = program.length - 1) := by decide +kernel
    exact hnone i (by omega) hi
  subst hseven
  exact ⟨hlevel, by decide, hidle, t, hstart, hticks 7, hticks 8⟩

end Session

end Seahorse
