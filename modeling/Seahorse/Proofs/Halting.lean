import Seahorse.CommandLine
import Seahorse.Proofs.Outcomes

/-!
# Every loop of ticks ends

A host ticks until there is no outcome, or one that does not ask for more ticks. Nothing in such a
loop bounds it, and a run may be in any state when it begins, also one that no program leads to: with
the cursor behind the end, with nothing to execute, on a level that cannot be played. It ends all the
same. An outcome that asks for more leaves one command less and at least one, so `remaining` bounds
the number of outcomes, and any other outcome leaves the run at rest.
-/

namespace Seahorse

/-! ## One tick -/

theorem Session.ticks_succ_of_resting {s : Session} (count : Nat) (ht : s.tick.value.1 = none) :
    (s.ticks (count + 1)).value = ([], s.ticked) := by
  rw [ticks, Logged.value_bind]
  rcases hs : s.tick.value with ⟨answer, t⟩
  obtain rfl : answer = none := by rw [← ht, hs]
  simp [ticked, hs]

theorem Move.isContinued_outcome (m : Move) :
    m.outcome.isContinued = true ↔ m.verdict.phase = .running := by
  unfold outcome
  cases m.verdict with
  | continues => exact iff_of_true rfl rfl
  | completes => exact iff_of_false nofun nofun
  | exhausts => exact iff_of_false nofun nofun

namespace Run

section Tick

variable {level : Level} {run : Run}

theorem tick_eq_none_iff : (run.tick level).1 = none ↔ run.phase ≠ .running := by
  rcases run.tick_cases level with ⟨hrun, ht⟩ | ⟨hrun, -, ht⟩ | ⟨hrun, -, c, ht | ht⟩ <;>
    simp [ht, hrun]

theorem cursor_lt_of_isContinued {c : Command}
    (h : (run.move level c).outcome.isContinued = true) : run.cursor + 1 < run.program.length := by
  rw [Move.isContinued_outcome] at h
  unfold move at h
  dsimp only at h
  split_ifs at h with hmet hdone
  · cases h
  · cases h
  · simpa using hdone

/-- An outcome that asks for more leaves one command less, and at least one. -/
theorem tick_of_isContinued {o : Outcome} (h : (run.tick level).1 = some o)
    (ho : o.isContinued = true) :
    (run.tick level).2.phase = .running ∧ (run.tick level).2.remaining + 1 = run.remaining ∧
      1 ≤ (run.tick level).2.remaining := by
  rcases run.tick_cases level with ⟨-, ht⟩ | ⟨-, -, ht⟩ | ⟨-, -, c, ht | ht⟩ <;> rw [ht] at h ⊢
  · cases h
  · obtain rfl := Option.some.inj h
    cases ho
  · obtain rfl := Option.some.inj h
    cases ho
  · obtain rfl := Option.some.inj h
    have hlt := cursor_lt_of_isContinued ho
    have hleft : (run.after (.taken (run.move level c))).remaining =
        run.program.length - (run.cursor + 1) := rfl
    refine ⟨(Move.isContinued_outcome _).mp ho, ?_, ?_⟩
    · rw [hleft, remaining]
      omega
    · rw [hleft]
      omega

/-- Any other outcome leaves the run at rest. -/
theorem tick_of_not_isContinued {o : Outcome} (h : (run.tick level).1 = some o)
    (ho : o.isContinued = false) : (run.tick level).2.phase ≠ .running := by
  rcases run.tick_cases level with ⟨-, ht⟩ | ⟨-, -, ht⟩ | ⟨-, -, c, ht | ht⟩ <;> rw [ht] at h ⊢
  · cases h
  · exact nofun
  · exact nofun
  · obtain rfl := Option.some.inj h
    intro hphase
    rw [(Move.isContinued_outcome _).mpr hphase] at ho
    cases ho

/-- A tick counts at most one command, and none if there is none. -/
theorem counters_tick (level : Level) (run : Run) :
    (run.tick level).2.ticks ≤ run.ticks + min 1 run.remaining ∧
      (run.tick level).2.forwardSteps ≤ run.forwardSteps + min 1 run.remaining := by
  rcases run.tick_cases level with ⟨-, ht⟩ | ⟨-, -, ht⟩ | ⟨-, hpos, c, ht | ht⟩ <;> rw [ht]
  · exact ⟨Nat.le_add_right _ _, Nat.le_add_right _ _⟩
  · exact ⟨Nat.le_add_right _ _, Nat.le_add_right _ _⟩
  · rw [Nat.min_eq_left hpos]
    exact ⟨le_rfl, Nat.le_add_right _ _⟩
  · rw [Nat.min_eq_left hpos]
    refine ⟨le_rfl, ?_⟩
    show (if c = .forward then run.forwardSteps + 1 else run.forwardSteps) ≤ run.forwardSteps + 1
    split_ifs
    · exact le_rfl
    · exact Nat.le_succ _

end Tick

/-! ## The loop of a host -/

/-- Ticking until there is no outcome or one that does not ask for more, with the outcomes on the way
and the run at the end. -/
inductive Loop (level : Level) : Run → List Outcome → Run → Prop where
  /-- There is no outcome. -/
  | resting {run : Run} (h : (run.tick level).1 = none) : Loop level run [] (run.tick level).2
  /-- The outcome does not ask for more. -/
  | ended {run : Run} {o : Outcome} (h : (run.tick level).1 = some o)
      (ho : o.isContinued = false) : Loop level run [o] (run.tick level).2
  /-- The outcome asks for more. -/
  | continued {run last : Run} {o : Outcome} {os : List Outcome} (h : (run.tick level).1 = some o)
      (ho : o.isContinued = true) (rest : Loop level (run.tick level).2 os last) :
      Loop level run (o :: os) last

theorem exists_loop (level : Level) (run : Run) : ∃ os last, Loop level run os last := by
  -- only an outcome that asks for more makes the loop go on, and it leaves one command less
  induction hn : run.remaining using Nat.strong_induction_on generalizing run with
  | _ n ih =>
    cases h : (run.tick level).1 with
    | none => exact ⟨_, _, .resting h⟩
    | some o =>
      cases ho : o.isContinued with
      | false => exact ⟨_, _, .ended h ho⟩
      | true =>
        obtain ⟨-, hless, -⟩ := tick_of_isContinued h ho
        obtain ⟨os, last, hrest⟩ := ih _ (by omega) (run.tick level).2 rfl
        exact ⟨_, _, .continued h ho hrest⟩

namespace Loop

variable {level : Level} {run last last' : Run} {os os' : List Outcome}

theorem unique (h : Loop level run os last) (h' : Loop level run os' last') :
    os' = os ∧ last' = last := by
  induction h generalizing os' last' with
  | resting ht =>
    cases h' with
    | resting => exact ⟨rfl, rfl⟩
    | ended ht' => rw [ht] at ht'; cases ht'
    | continued ht' => rw [ht] at ht'; cases ht'
  | ended ht ho =>
    cases h' with
    | resting ht' => rw [ht] at ht'; cases ht'
    | ended ht' =>
      rw [ht] at ht'
      obtain rfl := Option.some.inj ht'
      exact ⟨rfl, rfl⟩
    | continued ht' ho' =>
      rw [ht] at ht'
      obtain rfl := Option.some.inj ht'
      rw [ho] at ho'
      cases ho'
  | continued ht ho _ ih =>
    cases h' with
    | resting ht' => rw [ht] at ht'; cases ht'
    | ended ht' ho' =>
      rw [ht] at ht'
      obtain rfl := Option.some.inj ht'
      rw [ho] at ho'
      cases ho'
    | continued ht' _ hrest' =>
      rw [ht] at ht'
      obtain rfl := Option.some.inj ht'
      obtain ⟨rfl, rfl⟩ := ih hrest'
      exact ⟨rfl, rfl⟩

theorem length_le (h : Loop level run os last) : os.length ≤ max 1 run.remaining := by
  induction h with
  | resting => exact Nat.zero_le _
  | ended => exact Nat.le_max_left _ _
  | continued ht ho _ ih =>
    obtain ⟨-, hless, hleft⟩ := tick_of_isContinued ht ho
    rw [List.length_cons]
    omega

theorem phase_ne_running (h : Loop level run os last) : last.phase ≠ .running := by
  induction h with
  | resting ht =>
    have hrest := tick_eq_none_iff.mp ht
    rw [tick_of_not_running hrest]
    exact hrest
  | ended ht ho => exact tick_of_not_isContinued ht ho
  | continued _ _ _ ih => exact ih

/-- The counters grow by at most the number of commands that were left. -/
theorem counters_le (h : Loop level run os last) :
    last.ticks ≤ run.ticks + run.remaining ∧
      last.forwardSteps ≤ run.forwardSteps + run.remaining := by
  have hlast (run : Run) : (run.tick level).2.ticks ≤ run.ticks + run.remaining ∧
      (run.tick level).2.forwardSteps ≤ run.forwardSteps + run.remaining := by
    obtain ⟨hticks, hsteps⟩ := run.counters_tick level
    omega
  induction h with
  | resting => exact hlast _
  | ended => exact hlast _
  | @continued run _ _ _ ht ho _ ih =>
    obtain ⟨hticks, hsteps⟩ := run.counters_tick level
    obtain ⟨-, hless, -⟩ := tick_of_isContinued ht ho
    omega

/-- As many ticks as there are commands left are enough to come to the end of the loop. -/
theorem ticks_value (h : Loop level run os last) {count : Nat} (hcount : max 1 run.remaining ≤ count) :
    (Session.ticks count ⟨level, run⟩).value = (os, ⟨level, last⟩) := by
  induction h generalizing count with
  | @resting run ht =>
    obtain ⟨count, rfl⟩ : ∃ n, count = n + 1 := ⟨count - 1, by omega⟩
    exact Session.ticks_succ_of_resting (s := ⟨level, run⟩) count ht
  | @ended run o ht ho =>
    obtain ⟨count, rfl⟩ : ∃ n, count = n + 1 := ⟨count - 1, by omega⟩
    exact Session.ticks_succ_of_ended (s := ⟨level, run⟩) count ht ho
  | @continued run last o os ht ho _ ih =>
    obtain ⟨count, rfl⟩ : ∃ n, count = n + 1 := ⟨count - 1, by omega⟩
    obtain ⟨-, hless, hleft⟩ := tick_of_isContinued ht ho
    have hrest : (Session.ticked ⟨level, run⟩ |>.ticks count).value = (os, ⟨level, last⟩) :=
      ih (by omega)
    rw [Session.ticks_succ_of_continued (s := ⟨level, run⟩) count ht ho, hrest]

end Loop

end Run

namespace CommandLine

section Play

variable (pause : List Action) (count : Nat) {s : Session} {o : Outcome}

theorem play_succ_of_resting (ht : (s.run.tick s.level).1 = none) :
    play pause (count + 1) s = (none, s.ticked, shown s.tick.journal) := by
  simp [play, ht, Session.ticked]

/-- What is noted after a tick: the entries of the tick and those about its events. -/
def tickNotes (s : Session) : List Action :=
  shown (s.tick.journal ++ s.ticked.drain.1.flatMap eventEntries)

theorem play_succ_of_ended (ht : (s.run.tick s.level).1 = some o) (ho : o.isContinued = false) :
    play pause (count + 1) s = (some o, s.ticked.drain.2, tickNotes s) := by
  simp [play, ht, ho, Session.ticked, tickNotes]

theorem play_succ_of_continued (ht : (s.run.tick s.level).1 = some o) (ho : o.isContinued = true) :
    play pause (count + 1) s =
      ((play pause count s.ticked.drain.2).1, (play pause count s.ticked.drain.2).2.1,
        tickNotes s ++ pause ++ (play pause count s.ticked.drain.2).2.2) := by
  simp [play, ht, ho, Session.ticked, tickNotes]

end Play

/-- More ticks than there are commands left make no difference to what is done. -/
theorem play_eq_play (pause : List Action) {s : Session} {count count' : Nat}
    (h : max 1 s.run.remaining ≤ count) (h' : max 1 s.run.remaining ≤ count') :
    play pause count s = play pause count' s := by
  induction count generalizing s count' with
  | zero => omega
  | succ count ih =>
    obtain ⟨count', rfl⟩ : ∃ n, count' = n + 1 := ⟨count' - 1, by omega⟩
    cases ht : (s.run.tick s.level).1 with
    | none => rw [play_succ_of_resting pause count ht, play_succ_of_resting pause count' ht]
    | some o =>
      cases ho : o.isContinued with
      | false => rw [play_succ_of_ended pause count ht ho, play_succ_of_ended pause count' ht ho]
      | true =>
        obtain ⟨-, hless, hleft⟩ := Run.tick_of_isContinued ht ho
        have hsame : s.ticked.drain.2.run.remaining = (s.run.tick s.level).2.remaining := rfl
        have hrest : play pause count s.ticked.drain.2 = play pause count' s.ticked.drain.2 :=
          ih (by omega) (by omega)
        rw [play_succ_of_continued pause count ht ho, play_succ_of_continued pause count' ht ho, hrest]

end CommandLine

/-- **Ticking ends from any state whatever.** On any level, for a run with any phase, pose, cursor,
program, targets and matcher: there is no outcome exactly if the run does not execute a program, and
then the tick changes nothing; an outcome that asks for more leaves the run executing with one command
less and at least one; any other outcome leaves it at rest. So the loop of a host comes to an end, and
to one end only, after at most as many outcomes as there are commands left, or one; a tick after it
has no outcome. The counters grow by no more than the commands that were left, and a host that stops
after so many ticks stops no sooner than one that never does. -/
theorem Run.halting_of_ticks (level : Level) (run : Run) :
    ((run.tick level).1 = none ↔ run.phase ≠ .running) ∧
    ((run.tick level).1 = none → (run.tick level).2 = run) ∧
    (∀ o, (run.tick level).1 = some o → o.isContinued = true →
      (run.tick level).2.phase = .running ∧
      (run.tick level).2.remaining + 1 = run.remaining ∧ 1 ≤ (run.tick level).2.remaining) ∧
    (∀ o, (run.tick level).1 = some o → o.isContinued = false →
      (run.tick level).2.phase ≠ .running) ∧
    ∃ os last, (∀ os' last', Loop level run os' last' ↔ os' = os ∧ last' = last) ∧
      os.length ≤ max 1 run.remaining ∧ last.tick level = (none, last) ∧
      last.ticks ≤ run.ticks + run.remaining ∧
      last.forwardSteps ≤ run.forwardSteps + run.remaining ∧
      ∀ count, max 1 run.remaining ≤ count →
        (Session.ticks count ⟨level, run⟩).value = (os, ⟨level, last⟩) ∧
        ∀ pause, CommandLine.play pause count ⟨level, run⟩ =
          CommandLine.play pause (max 1 run.remaining) ⟨level, run⟩ := by
  refine ⟨tick_eq_none_iff, ?_, fun o h ho => tick_of_isContinued h ho,
    fun o h ho => tick_of_not_isContinued h ho, ?_⟩
  · intro h
    rw [tick_of_not_running (tick_eq_none_iff.mp h)]
  · obtain ⟨os, last, hloop⟩ := exists_loop level run
    obtain ⟨hticks, hsteps⟩ := hloop.counters_le
    refine ⟨os, last, fun os' last' => ⟨hloop.unique, ?_⟩, hloop.length_le,
      tick_of_not_running hloop.phase_ne_running, hticks, hsteps, fun count hcount => ?_⟩
    · rintro ⟨rfl, rfl⟩
      exact hloop
    · exact ⟨hloop.ticks_value hcount, fun pause => CommandLine.play_eq_play pause hcount le_rfl⟩

end Seahorse
