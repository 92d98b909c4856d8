import Seahorse.Proofs.History

/-!
# The story that the events tell

Whoever draws a run drains its events now and then. The events drained since the start together with
those still pending are the same however the host drains: they tell the start, the commands taken
with what each brought about, and the end. Everything that the state of the run says about captures,
the objective and the steps forward can be counted off this story.
-/

namespace Seahorse

/-! ## The story of a list of commands -/

namespace Event

/-- Whether the event ends a run. -/
def isFinal : Event → Bool
  | .aborted .. | .completed _ | .exhausted => true
  | .started _ | .moved .. | .captured _ | .objectiveSatisfied => false

/-- The name of the target that the event reports. -/
def captured? : Event → Option String
  | .captured name => some name
  | _ => none

/-- Whether the event is a step forward. -/
def isForward : Event → Bool
  | .moved .forward _ => true
  | _ => false

/-- Whether the event reports that the objective was performed. -/
def isSatisfaction : Event → Bool
  | .objectiveSatisfied => true
  | _ => false

end Event

namespace Level

/-- The names of the targets that a command newly brings into range, in the order of the level. -/
def newlyReached (level : Level) (before : Program) (c : Command) : List String :=
  (level.targets.filter fun t =>
    !level.reaches before t && t.inRange (level.poseAfter (before ++ [c])).position).map (·.name)

/-- The events of a command that is taken after others. -/
def commandEvents (level : Level) (before : Program) (c : Command) : List Event :=
  .moved c (level.poseAfter (before ++ [c])) :: (level.newlyReached before c).map .captured ++
    if level.objective.isPerformed (before ++ [c]) && !level.objective.isPerformed before then
      [.objectiveSatisfied]
    else []

/-- The events of commands that are taken one after another. -/
def trail (level : Level) (cs : Program) : List Event :=
  (List.range cs.length).flatMap fun i =>
    match cs[i]? with
    | some c => level.commandEvents (cs.take i) c
    | none => []

theorem trail_concat (level : Level) (cs : Program) (c : Command) :
    level.trail (cs ++ [c]) = level.trail cs ++ level.commandEvents cs c := by
  unfold trail
  rw [List.length_append, List.length_singleton, List.range_succ, List.flatMap_append]
  congr 1
  · refine List.flatMap_congr fun i hi => ?_
    have hlt := List.mem_range.mp hi
    rw [List.getElem?_append_left hlt, List.take_append_of_le_length hlt.le]
  · simp

/-! ## What can be counted off -/

section Command

variable {level : Level} (before : Program) (c : Command)

theorem isFinal_of_mem_commandEvents {e : Event} (he : e ∈ level.commandEvents before c) :
    e.isFinal = false := by
  unfold commandEvents at he
  rcases List.mem_append.mp he with he | he
  · rcases List.mem_cons.mp he with rfl | he
    · rfl
    · obtain ⟨name, -, rfl⟩ := List.mem_map.mp he
      rfl
  · split_ifs at he
    · rw [List.mem_singleton.mp he]
      rfl
    · cases he

theorem captured_commandEvents :
    (level.commandEvents before c).filterMap Event.captured? = level.newlyReached before c := by
  have hmap : ∀ names : List String,
      (names.map Event.captured).filterMap Event.captured? = names := by
    intro names
    rw [List.filterMap_map]
    exact List.filterMap_some
  have hlast : ∀ b : Bool,
      (if b then [Event.objectiveSatisfied] else []).filterMap Event.captured? = [] := by
    intro b
    cases b <;> rfl
  unfold commandEvents
  rw [List.filterMap_append, List.filterMap_cons_none rfl, hmap, hlast, List.append_nil]

theorem countP_commandEvents (p : Event → Bool) (hcaptured : ∀ name, p (.captured name) = false) :
    (level.commandEvents before c).countP p =
      (if p (.moved c (level.poseAfter (before ++ [c]))) then 1 else 0) +
      if (level.objective.isPerformed (before ++ [c]) && !level.objective.isPerformed before) &&
        p .objectiveSatisfied then 1 else 0 := by
  have hmap : ∀ names : List String, (names.map Event.captured).countP p = 0 := by
    intro names
    rw [List.countP_eq_zero]
    intro e he
    obtain ⟨name, -, rfl⟩ := List.mem_map.mp he
    simp [hcaptured]
  have hlast : ∀ b : Bool, (if b then [Event.objectiveSatisfied] else []).countP p =
      if b && p .objectiveSatisfied then 1 else 0 := by
    intro b
    cases b
    · rfl
    · rw [if_pos rfl, List.countP_singleton, Bool.true_and]
  unfold commandEvents
  rw [List.countP_append, List.countP_cons, hmap, Nat.zero_add, hlast]

end Command

section Trail

variable {level : Level} (cs : Program)

theorem isFinal_of_mem_trail {e : Event} (he : e ∈ level.trail cs) : e.isFinal = false := by
  induction cs using List.reverseRecOn with
  | nil => cases he
  | append_singleton cs c ih =>
    rw [trail_concat, List.mem_append] at he
    rcases he with he | he
    · exact ih he
    · exact isFinal_of_mem_commandEvents cs c he

theorem reached_perm (c : Command) :
    ((level.targets.filter (level.reaches cs)).map (·.name) ++ level.newlyReached cs c).Perm
      ((level.targets.filter (level.reaches (cs ++ [c]))).map (·.name)) := by
  have hsplit := List.filter_append_perm (level.reaches cs)
    (level.targets.filter (level.reaches (cs ++ [c])))
  have hold : ∀ t, (level.reaches cs t && level.reaches (cs ++ [c]) t) = level.reaches cs t := by
    intro t
    rw [reaches_concat]
    cases level.reaches cs t <;> rfl
  have hnew : ∀ t, (!level.reaches cs t && level.reaches (cs ++ [c]) t) =
      (!level.reaches cs t && t.inRange (level.poseAfter (cs ++ [c])).position) := by
    intro t
    rw [reaches_concat]
    cases level.reaches cs t <;> rfl
  rw [List.filter_filter, List.filter_filter] at hsplit
  simp only [hold, hnew] at hsplit
  have hnames := hsplit.map (·.name)
  rw [List.map_append] at hnames
  exact hnames

/-- The captures told are those of the targets that have come into range, each once. -/
theorem captured_trail_perm :
    ((level.trail cs).filterMap Event.captured?).Perm
      ((level.targets.filter (level.reaches cs)).map (·.name)) := by
  induction cs using List.reverseRecOn with
  | nil =>
    have hnone : level.targets.filter (level.reaches []) = [] :=
      List.filter_eq_nil_iff.mpr fun _ _ => Bool.noConfusion
    rw [hnone]
    exact List.Perm.refl _
  | append_singleton cs c ih =>
    rw [trail_concat, List.filterMap_append, captured_commandEvents]
    exact (ih.append_right _).trans (reached_perm cs c)

theorem countP_isForward_trail : (level.trail cs).countP Event.isForward = cs.count .forward := by
  induction cs using List.reverseRecOn with
  | nil => rfl
  | append_singleton cs c ih =>
    rw [trail_concat, List.countP_append, ih, List.count_append,
      countP_commandEvents cs c _ fun _ => rfl]
    cases c <;> simp [Event.isForward]

theorem countP_isSatisfaction_trail (ho : level.objective.IsPlayable) :
    (level.trail cs).countP Event.isSatisfaction =
      if level.objective.isPerformed cs then 1 else 0 := by
  induction cs using List.reverseRecOn with
  | nil =>
    have hnone : level.objective.isPerformed [] = false := by
      rw [← Matcher.isSatisfied_feedAll ho, ← Bool.not_eq_true, Matcher.isSatisfied_iff_le]
      exact Nat.not_le.mpr (List.length_pos_iff.mpr ho.nonempty)
    rw [hnone]
    rfl
  | append_singleton cs c ih =>
    rw [trail_concat, List.countP_append, ih, countP_commandEvents cs c _ fun _ => rfl]
    cases hold : level.objective.isPerformed cs with
    | true => simp [Objective.isPerformed_concat c hold, Event.isSatisfaction]
    | false =>
      cases level.objective.isPerformed (cs ++ [c]) <;> simp [Event.isSatisfaction]

end Trail

end Level

/-! ## The story of a run -/

namespace Run

/-- The event at the end of a run, once it has ended. -/
def closing (level : Level) (run : Run) : List Event :=
  match run.phase with
  | .running => []
  | .aborted => [.aborted level.area.violation level.area.violation.message]
  | .completed => [.completed run.collected]
  | .idle => [.exhausted]

/-- All events of a run since its program was started. -/
def story (level : Level) (run : Run) : List Event :=
  .started run.program.length :: level.trail run.taken ++ run.closing level

section Story

variable {level : Level} {run : Run} {c : Command}

theorem move_captured (h : History level run) (c : Command) :
    (run.move level c).captured = level.newlyReached run.taken c := by
  show Target.captured (run.move level c).pose.position run.targets = _
  rw [h.move_pose, h.targets_eq, Target.captured, Level.targetsAfter, List.filter_map, List.map_map]
  rfl

/-- The matcher reports the objective with the command that performs it. -/
theorem move_progress_eq_satisfied_iff (h : History level run) (ho : level.objective.IsPlayable)
    (c : Command) :
    (run.move level c).progress = .satisfied ↔
      (level.objective.isPerformed (run.taken ++ [c]) &&
        !level.objective.isPerformed run.taken) = true := by
  have hnow : (run.matcher.feed level.objective c).2 =
      Matcher.start.feedAll level.objective (run.taken ++ [c]) := h.move_matcher c
  have hthen : run.matcher = Matcher.start.feedAll level.objective run.taken := h.matcher_eq
  show (run.matcher.feed level.objective c).1 = .satisfied ↔ _
  rw [Matcher.feed_fst_eq_satisfied_iff, hnow, hthen, Matcher.isSatisfied_feedAll ho,
    Matcher.isSatisfied_feedAll ho]
  simp

theorem closing_after_taken (level : Level) (run : Run) (m : Move) :
    (run.after (.taken m)).closing level = m.lastEvents := by
  unfold closing Move.lastEvents
  simp only [after]
  cases m.verdict <;> rfl

/-- The events of a command that is taken are those of the course, and the end if it ends the
run. -/
theorem move_events (h : History level run) (ho : level.objective.IsPlayable) (c : Command) :
    (run.move level c).events =
      level.commandEvents run.taken c ++
        (run.after (.taken (run.move level c))).closing level := by
  rw [closing_after_taken, Move.events, Level.commandEvents, move_captured h, ← h.move_pose]
  simp only [move_progress_eq_satisfied_iff h ho]
  rfl

/-- **Step.** A tick appends to the story what it adds to the pending events. -/
theorem tick_story (h : History level run) (ho : level.objective.IsPlayable) {past : List Event}
    (hpast : past ++ run.events = run.story level) :
    past ++ (run.tick level).2.events = (run.tick level).2.story level := by
  rcases h.tick_cases with ⟨-, ht⟩ | ⟨c, hrun, hc, ⟨-, ht⟩ | ⟨-, ht⟩⟩ <;> rw [ht]
  · exact hpast
  · show past ++ (run.events ++ _) = _
    rw [← List.append_assoc, hpast, story, story, taken_after_blocked hrun]
    simp [closing, hrun, after]
  · show past ++ (run.events ++ (run.move level c).events) = _
    rw [← List.append_assoc, hpast, move_events h ho, story, story, taken_after_taken hrun hc,
      Level.trail_concat]
    simp [closing, hrun, after]

/-- The end is told exactly when the run has ended. -/
theorem closing_cases (level : Level) (run : Run) :
    run.phase = .running ∧ run.closing level = [] ∨
    run.phase ≠ .running ∧ ∃ last, run.closing level = [last] ∧ last.isFinal = true := by
  unfold closing
  cases run.phase with
  | running => exact .inl ⟨rfl, rfl⟩
  | idle => exact .inr ⟨nofun, _, rfl, rfl⟩
  | aborted => exact .inr ⟨nofun, _, rfl, rfl⟩
  | completed => exact .inr ⟨nofun, _, rfl, rfl⟩

/-- A count over events that do not end a run is a count over the commands taken. -/
theorem countP_story (level : Level) (run : Run) {p : Event → Bool}
    (hstarted : ∀ n, p (.started n) = false) (hfinal : ∀ e, e.isFinal = true → p e = false) :
    (run.story level).countP p = (level.trail run.taken).countP p := by
  have hclosing : (run.closing level).countP p = 0 := by
    rcases run.closing_cases level with ⟨-, h⟩ | ⟨-, last, h, hlast⟩ <;> rw [h]
    · rfl
    · simp [hfinal last hlast]
  rw [story, List.cons_append, List.countP_cons, List.countP_append, hclosing]
  simp [hstarted]

theorem isFinal_of_mem_opening (level : Level) (run : Run) {e : Event}
    (he : e ∈ .started run.program.length :: level.trail run.taken) : e.isFinal = false := by
  rcases List.mem_cons.mp he with rfl | he
  · rfl
  · exact Level.isFinal_of_mem_trail _ he

/-- The end of a run is told once, last, and only when the run has ended. -/
theorem ended_iff_story (level : Level) (run : Run) :
    run.phase ≠ .running ↔ ∃ before last, run.story level = before ++ [last] ∧ last.isFinal = true ∧
      ∀ e ∈ before, e.isFinal = false := by
  rcases run.closing_cases level with ⟨hrun, h⟩ | ⟨hended, last, h, hlast⟩
  · refine iff_of_false (fun hne => hne hrun) ?_
    rintro ⟨before, last, hstory, hlast, -⟩
    rw [story, h, List.append_nil] at hstory
    have hopen := isFinal_of_mem_opening level run (by rw [hstory]; exact List.mem_concat_self)
    rw [hlast] at hopen
    cases hopen
  · have hopen : ∀ e ∈ .started run.program.length :: level.trail run.taken, e.isFinal = false :=
      fun _ he => isFinal_of_mem_opening level run he
    exact iff_of_true hended ⟨_, last, by rw [story, h], hlast, hopen⟩

theorem captured_story_perm (h : History level run) :
    ((run.story level).filterMap Event.captured?).Perm run.collected := by
  have hclosing : (run.closing level).filterMap Event.captured? = [] := by
    unfold closing
    cases run.phase <;> rfl
  rw [story, List.cons_append, List.filterMap_cons_none rfl, List.filterMap_append, hclosing,
    List.append_nil, collected, h.targets_eq, Level.collectedNames_targetsAfter]
  exact Level.captured_trail_perm _

theorem countP_isSatisfaction_story (h : History level run) (ho : level.objective.IsPlayable) :
    (run.story level).countP Event.isSatisfaction =
      if run.matcher.isSatisfied level.objective then 1 else 0 := by
  have hnone : ∀ e : Event, e.isFinal = true → e.isSatisfaction = false
    | .aborted .., _ | .completed _, _ | .exhausted, _ => rfl
  rw [countP_story level run (fun _ => rfl) hnone, Level.countP_isSatisfaction_trail _ ho,
    h.matcher_eq, Level.matcherAfter, Matcher.isSatisfied_feedAll ho]

theorem countP_isForward_story (h : History level run) :
    (run.story level).countP Event.isForward = run.forwardSteps := by
  have hnone : ∀ e : Event, e.isFinal = true → e.isForward = false
    | .aborted .., _ | .completed _, _ | .exhausted, _ => rfl
  rw [countP_story level run (fun _ => rfl) hnone, Level.countP_isForward_trail, h.forwardSteps_eq]

end Story

end Run

namespace Session

section Story

variable {s : Session} {past : List Event}

/-- **Step.** An operation within a run appends to the story what it drains or leaves pending. -/
theorem perform_story (h : s.run.History s.level) (ho : s.level.objective.IsPlayable)
    (hpast : past ++ s.run.events = s.run.story s.level) {op : Op} (hop : s.keepsRun op = true) :
    past ++ (s.perform op).1.events ++ (s.perform op).2.run.events =
      (s.perform op).2.run.story s.level := by
  cases op with
  | start program =>
    rw [perform_start_events, perform_start_of_keepsRun hop, List.append_nil]
    exact hpast
  | tick =>
    rw [perform_tick, ticked_run]
    simpa [Answer.events] using Run.tick_story h ho hpast
  | reset => cases hop
  | drain =>
    rw [perform_drain, List.append_nil]
    exact hpast

/-- **Run.** However a host drains the events of a run, what it has got and what is still pending
are the story of the run. -/
theorem performAll_story (h : s.run.History s.level) (ho : s.level.objective.IsPlayable)
    (hpast : past ++ s.run.events = s.run.story s.level) {ops : List Op}
    (hops : s.continues ops = true) :
    past ++ (s.performAll ops).1.flatMap Answer.events ++ (s.performAll ops).2.run.events =
      (s.performAll ops).2.run.story s.level := by
  induction ops generalizing s past with
  | nil => simpa using hpast
  | cons op ops ih =>
    obtain ⟨hop, hrest⟩ := continues_cons.mp hops
    have hlevel := perform_level s op
    have hnext := ih (h.perform op) (hlevel ▸ ho) (hlevel ▸ perform_story h ho hpast hop) hrest
    rw [performAll_cons, List.flatMap_cons, ← List.append_assoc, hnext, hlevel]

end Story

theorem performAll_program {s : Session} {ops : List Op} (hops : s.continues ops = true) :
    (s.performAll ops).2.run.program = s.run.program := by
  induction ops generalizing s with
  | nil => rfl
  | cons op ops ih =>
    obtain ⟨hop, hrest⟩ := continues_cons.mp hops
    rw [performAll_cons, ih hrest]
    cases op with
    | start program => rw [perform_start_of_keepsRun hop]
    | tick => exact Run.tick_program s.level s.run
    | reset => cases hop
    | drain => rfl

/-- **The events of a run tell its story, however they are drained.** From the start of a program up
to the next start or reset, the events drained and those still pending are: the start, for each
command taken its move, its captures and the performed objective, and the end once the run has
ended. So the end is told exactly once and last if the run is over, and not at all before; the
captures told are the targets collected; the objective is told once if it is satisfied; and the
steps forward told are those counted, in a word of 32 bits if the length of the program fits one. -/
theorem story_of_run {s t : Session} {program : Program} (hlevel : s.level.validate = .ok ())
    (hne : program ≠ []) (hstart : (s.start program).value = .ok t) {ops : List Op}
    (hops : t.continues ops = true) :
    let u := (t.performAll ops).2
    let events := (t.performAll ops).1.flatMap Answer.events ++ u.run.events
    u.run.program = program ∧ u.run.History s.level ∧
    events = .started program.length :: s.level.trail u.run.taken ++ u.run.closing s.level ∧
    (u.run.phase ≠ .running ↔ ∃ before last, events = before ++ [last] ∧ last.isFinal = true ∧
      ∀ e ∈ before, e.isFinal = false) ∧
    (u.run.phase = .running → ∀ e ∈ events, e.isFinal = false) ∧
    (events.filterMap Event.captured?).Perm u.run.collected ∧
    events.countP Event.isSatisfaction =
      (if u.run.matcher.isSatisfied s.level.objective then 1 else 0) ∧
    events.countP Event.isForward = u.run.forwardSteps ∧
    (program.length < UInt32.size →
      u.run.ticks < UInt32.size ∧ u.run.forwardSteps < UInt32.size) := by
  intro u events
  have ho := Level.objective_isPlayable hlevel
  obtain rfl := eq_begun_of_start hne hstart
  have hbegun : Run.History s.level (begun s.level program).run := .begun s.level hne
  have hhist : u.run.History s.level :=
    Run.History.performAll (s := begun s.level program) hbegun ops
  have hprogram : u.run.program = program := performAll_program hops
  have hstory : events = u.run.story s.level := by
    have hnone : [] ++ (begun s.level program).run.events =
        (begun s.level program).run.story s.level := rfl
    exact performAll_story (s := begun s.level program) hbegun ho hnone hops
  refine ⟨hprogram, hhist, ?_, ?_, ?_, ?_, ?_, ?_, ?_⟩
  · rw [hstory, Run.story, hprogram]
  · rw [hstory]
    exact Run.ended_iff_story s.level u.run
  · intro hrun e he
    have hopen : u.run.closing s.level = [] := by rw [Run.closing, hrun]
    rw [hstory, Run.story, hopen, List.append_nil] at he
    exact Run.isFinal_of_mem_opening s.level u.run he
  · rw [hstory]
    exact Run.captured_story_perm hhist
  · rw [hstory]
    exact Run.countP_isSatisfaction_story hhist ho
  · rw [hstory]
    exact Run.countP_isForward_story hhist
  · intro hlen
    rw [← hprogram] at hlen
    exact hhist.counters_le.imp (·.trans_lt hlen) (·.trans_lt hlen)

/-- On the level with the key: the program solves it, and the host drains in the middle and is
refused another start. -/
theorem story_of_run_theLostKey :
    let s : Session := ⟨Level.theLostKey, Run.fresh Level.theLostKey⟩
    let program : Program := [.forward, .wait, .forward, .turnRight, .forward]
    let ops : List Op :=
      [.drain, .tick, .tick, .start [.wait], .drain, .drain, .tick, .tick, .tick, .tick]
    s.level.validate = .ok () ∧ program ≠ [] ∧
      ∃ t, (s.start program).value = .ok t ∧ t.continues ops = true ∧
        let u := (t.performAll ops).2
        let events := (t.performAll ops).1.flatMap Answer.events ++ u.run.events
        events = .started 5 :: s.level.trail u.run.taken ++ u.run.closing s.level ∧
        events.countP Event.isForward = u.run.forwardSteps ∧ u.run.forwardSteps < UInt32.size := by
  intro s program ops
  have hlevel : s.level.validate = .ok () := Level.validate_builtin _ (by simp [s, Level.builtins])
  have hstart : (s.start program).value = .ok (begun Level.theLostKey program) := rfl
  have hops : (begun Level.theLostKey program).continues ops = true := by decide +kernel
  obtain ⟨-, -, hevents, -, -, -, -, hforward, hsize⟩ :=
    story_of_run hlevel (by decide) hstart hops
  exact ⟨hlevel, by decide, _, hstart, hops, hevents, hforward, (hsize (by decide)).2⟩

end Session

end Seahorse
