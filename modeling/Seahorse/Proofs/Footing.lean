import Seahorse.Proofs.History

/-!
# Where the seahorse stands

On a platform the seahorse is always inside the box. On a walkway it is always on a leg that counted
at some stage already reached: turning and waiting are not checked, and the stage may change under
it. The walkway turns once. The furthest stage decides which leg is checked and never falls back, so
along a run all checks of the row come before all checks of the column.
-/

namespace Seahorse

/-! ## The legs of a walkway -/

/-- A leg of a walkway. -/
inductive Leg where
  /-- The row, which comes first. -/
  | row
  /-- The column behind the turn. -/
  | column
  deriving DecidableEq

namespace Walkway

/-- The leg that counts when the objective has reached a stage. -/
def leg (w : Walkway) (stage : Nat) : Leg :=
  if stage ≤ w.turnStage then .row else .column

/-- Whether a point lies on a leg. -/
def isOn (w : Walkway) : Leg → Point → Bool
  | .row => w.onRow
  | .column => w.onColumn

theorem leg_eq_column_iff {w : Walkway} {stage : Nat} :
    w.leg stage = .column ↔ w.turnStage < stage := by
  unfold leg
  split_ifs with h
  · exact iff_of_false nofun (by omega)
  · exact iff_of_true rfl (by omega)

theorem leg_mono {w : Walkway} {m n : Nat} (hmn : m ≤ n) (h : w.leg m = .column) :
    w.leg n = .column := by
  rw [leg_eq_column_iff] at h ⊢
  omega

end Walkway

theorem Area.allows_walkway (w : Walkway) (p : Point) (stage : Nat) :
    (Area.walkway w).allows p stage = w.isOn (w.leg stage) p := by
  unfold allows Walkway.leg
  dsimp only
  split_ifs <;> rfl

/-- Turning and waiting leave the position alone. -/
theorem Pose.step_position {c : Command} (hc : c.isStep = false) (pose : Pose) (distance : Scalar) :
    (pose.step c distance).position = pose.position := by
  cases c with
  | forward => cases hc
  | backward => cases hc
  | turnLeft => rfl
  | turnRight => rfl
  | turnAround => rfl
  | wait => rfl

/-! ## Standing on the legal area -/

namespace Run

/-- The position is legal at some stage that the objective has already reached. -/
def Footed (level : Level) (run : Run) : Prop :=
  ∃ stage ≤ run.matcher.peakStage, level.area.allows run.pose.position stage = true

section Footed

variable {level : Level} {run : Run}

theorem footed_fresh (hlevel : level.validate = .ok ()) : Footed level (fresh level) :=
  ⟨0, le_rfl, Level.allows_start hlevel⟩

/-- A command that is taken ends on the legal area, or it does not change the position. -/
theorem Footed.move (h : Footed level run) {c : Command} (hallowed : run.allows level c = true) :
    Footed level (run.after (.taken (run.move level c))) := by
  have hpeak : run.matcher.peakStage ≤ (run.matcher.feed level.objective c).2.peakStage :=
    Matcher.peakStage_le_feed _ _ _
  cases hc : c.isStep with
  | true =>
    refine ⟨run.matcher.peakStage, hpeak, ?_⟩
    show level.area.allows (run.pose.step c level.stepDistance).position
      run.matcher.peakStage = true
    simpa [allows, hc] using hallowed
  | false =>
    obtain ⟨stage, hle, hlegal⟩ := h
    refine ⟨stage, le_trans hle hpeak, ?_⟩
    show level.area.allows (run.pose.step c level.stepDistance).position stage = true
    rw [Pose.step_position hc]
    exact hlegal

theorem Footed.tick (h : Footed level run) (hhist : History level run) :
    Footed level (run.tick level).2 := by
  rcases hhist.tick_cases with ⟨-, ht⟩ | ⟨c, -, -, ⟨-, ht⟩ | ⟨ha, ht⟩⟩ <;> rw [ht]
  · exact h
  · exact h
  · exact h.move ha

end Footed

end Run

namespace Session

/-- After any operations the seahorse stands on the legal area. -/
theorem footed_of_prepare {level : Level} {s : Session} (hs : (prepare level).value = .ok s)
    (ops : List Op) : (s.performAll ops).2.run.Footed level := by
  obtain ⟨hlevel, -⟩ := prepare_eq_ok_iff.mp hs
  have hstart := Run.footed_fresh hlevel
  exact run_induction hs hstart (fun _ => hstart) (fun _ hhist h => h.tick hhist) (fun _ h => h) ops

/-! ## Which leg is checked -/

/-- The leg that the next tick checks, if it checks one. -/
def checkedLeg? (w : Walkway) (s : Session) : Option Leg :=
  if s.isRunning then
    match s.run.program[s.run.cursor]? with
    | some c => if c.isStep then some (w.leg s.run.matcher.peakStage) else none
    | none => none
  else none

/-- The legs that are checked in the course of operations, in order. -/
def checkedLegs (w : Walkway) (s : Session) : List Op → List Leg
  | [] => []
  | op :: ops =>
    (if op = .tick then (s.checkedLeg? w).toList else []) ++ (s.perform op).2.checkedLegs w ops

section Legs

variable {w : Walkway} {s : Session}

theorem checkedLeg?_cases (w : Walkway) (s : Session) :
    s.checkedLeg? w = none ∨ s.checkedLeg? w = some (w.leg s.run.matcher.peakStage) := by
  unfold checkedLeg?
  split_ifs
  · cases s.run.program[s.run.cursor]? with
    | none => exact .inl rfl
    | some c => cases hc : c.isStep <;> simp [hc]
  · exact .inl rfl

theorem checkedLegs_head (w : Walkway) (s : Session) (op : Op) :
    ∃ n, (if op = .tick then (s.checkedLeg? w).toList else []) =
      List.replicate n (w.leg s.run.matcher.peakStage) := by
  split_ifs
  · rcases checkedLeg?_cases w s with h | h
    · exact ⟨0, by rw [h]; rfl⟩
    · exact ⟨1, by rw [h]; rfl⟩
  · exact ⟨0, rfl⟩

/-- Within a run the furthest stage never falls back, whether the sequence is broken or not. -/
theorem peakStage_le_perform (hhist : Run.History s.level s.run) {op : Op} (hop : s.keepsRun op) :
    s.run.matcher.peakStage ≤ (s.perform op).2.run.matcher.peakStage := by
  cases op with
  | start program => rw [perform_start_of_keepsRun hop]
  | tick =>
    rw [perform_tick, ticked_run]
    rcases hhist.tick_cases with ⟨-, ht⟩ | ⟨c, -, -, ⟨-, ht⟩ | ⟨-, ht⟩⟩ <;> rw [ht]
    · exact le_rfl
    · exact Matcher.peakStage_le_feed _ _ _
  | reset => cases hop
  | drain => exact le_rfl

/-- Once the column is checked, nothing else is checked in the run. -/
theorem checkedLegs_of_column (hhist : Run.History s.level s.run)
    (hcolumn : w.leg s.run.matcher.peakStage = .column) {ops : List Op} (hops : s.continues ops) :
    ∃ b, s.checkedLegs w ops = List.replicate b .column := by
  induction ops generalizing s with
  | nil => exact ⟨0, rfl⟩
  | cons op ops ih =>
    obtain ⟨hop, hrest⟩ := continues_cons.mp hops
    obtain ⟨n, hn⟩ := checkedLegs_head w s op
    obtain ⟨b, hb⟩ := ih (hhist.perform op)
      (Walkway.leg_mono (peakStage_le_perform hhist hop) hcolumn) hrest
    refine ⟨n + b, ?_⟩
    rw [checkedLegs, hn, hb, hcolumn, List.replicate_add]

/-- Along a run, first the row is checked and then the column. -/
theorem checkedLegs_eq (hhist : Run.History s.level s.run) {ops : List Op}
    (hops : s.continues ops) :
    ∃ a b, s.checkedLegs w ops = List.replicate a .row ++ List.replicate b .column := by
  induction ops generalizing s with
  | nil => exact ⟨0, 0, rfl⟩
  | cons op ops ih =>
    cases hleg : w.leg s.run.matcher.peakStage with
    | column =>
      obtain ⟨b, hb⟩ := checkedLegs_of_column hhist hleg hops
      exact ⟨0, b, hb⟩
    | row =>
      obtain ⟨n, hn⟩ := checkedLegs_head w s op
      obtain ⟨a, b, hab⟩ := ih (hhist.perform op) (continues_cons.mp hops).2
      refine ⟨n + a, b, ?_⟩
      rw [checkedLegs, hn, hab, hleg, List.replicate_add, List.append_assoc]

end Legs

/-- A step is blocked exactly when it ends off the leg that counts. -/
theorem ticked_phase_eq_aborted_iff {s : Session} {w : Walkway} (hw : s.level.area = .walkway w)
    {c : Command} (hrun : s.run.phase = .running) (hc : s.run.program[s.run.cursor]? = some c)
    (hstep : c.isStep = true) :
    s.ticked.run.phase = .aborted ↔
      w.isOn (w.leg s.run.matcher.peakStage) (s.run.pose.step c s.level.stepDistance).position =
        false := by
  have hallows : s.run.allows s.level c =
      w.isOn (w.leg s.run.matcher.peakStage) (s.run.pose.step c s.level.stepDistance).position := by
    simp [Run.allows, hstep, hw, Area.allows_walkway]
  rw [ticked_run, ← hallows]
  cases ha : s.run.allows s.level c with
  | false =>
    rw [Run.tick_blocked hrun hc ha]
    exact iff_of_true rfl rfl
  | true =>
    rw [Run.tick_taken hrun hc ha]
    exact iff_of_false (Run.verdict_phase_ne_aborted _) nofun

theorem ticked_pose {s : Session} {c : Command} (hrun : s.run.phase = .running)
    (hc : s.run.program[s.run.cursor]? = some c) (htaken : s.ticked.run.phase ≠ .aborted) :
    s.ticked.run.pose = s.run.pose.step c s.level.stepDistance := by
  rw [ticked_run] at htaken ⊢
  cases ha : s.run.allows s.level c with
  | false =>
    rw [Run.tick_blocked hrun hc ha] at htaken
    exact absurd rfl htaken
  | true =>
    rw [Run.tick_taken hrun hc ha]
    rfl

/-- **The seahorse never leaves the legal area, and a walkway turns once.** After any operations: on
a platform the position is inside the box; on a walkway it is legal at a stage already reached, a
step is blocked exactly when it ends off the leg that counts, so every step taken ends on the row up
to the turn and on the column from then on, the column counts once the objective is satisfied, and
along one run no check of the row comes after a check of the column. -/
theorem footing_of_operations {level : Level} {s : Session} (hs : (prepare level).value = .ok s)
    (ops : List Op) :
    let t := (s.performAll ops).2
    (∀ x z, level.area = .platform x z →
      x.contains t.run.pose.x 0 = true ∧ z.contains t.run.pose.z 0 = true) ∧
    ∀ w, level.area = .walkway w →
      (∃ stage ≤ t.run.matcher.peakStage, level.area.allows t.run.pose.position stage = true) ∧
      (∀ c, t.run.phase = .running → t.run.program[t.run.cursor]? = some c → c.isStep = true →
        (t.ticked.run.phase = .aborted ↔ w.isOn (w.leg t.run.matcher.peakStage)
          (t.run.pose.step c level.stepDistance).position = false) ∧
        (t.ticked.run.phase ≠ .aborted → t.run.matcher.peakStage ≤ w.turnStage →
          w.onRow t.ticked.run.pose.position = true) ∧
        (t.ticked.run.phase ≠ .aborted → w.turnStage < t.run.matcher.peakStage →
          w.onColumn t.ticked.run.pose.position = true)) ∧
      (t.run.matcher.isSatisfied level.objective = true → w.leg t.run.matcher.peakStage = .column) ∧
      ∀ program u, program ≠ [] → (t.start program).value = .ok u → ∀ more, u.continues more →
        ∃ a b, u.checkedLegs w more = List.replicate a .row ++ List.replicate b .column := by
  intro t
  have hhist : t.run.History level := history_of_prepare hs ops
  have hfooted : t.run.Footed level := footed_of_prepare hs ops
  obtain ⟨hlevel, rfl⟩ := prepare_eq_ok_iff.mp hs
  have ht : t.level = level := performAll_level _ ops
  have ho := Level.objective_isPlayable hlevel
  refine ⟨fun x z harea => ?_, fun w harea => ⟨hfooted, ?_, ?_, ?_⟩⟩
  · obtain ⟨stage, -, hlegal⟩ := hfooted
    rw [harea] at hlegal
    simpa [Area.allows, Pose.position] using hlegal
  · intro c hrun hc hstep
    have hblocked := ticked_phase_eq_aborted_iff (ht.symm ▸ harea) hrun hc hstep
    rw [ht] at hblocked
    have hon : t.ticked.run.phase ≠ .aborted →
        w.isOn (w.leg t.run.matcher.peakStage) t.ticked.run.pose.position = true := by
      intro htaken
      rw [ticked_pose hrun hc htaken, ht]
      rw [ne_eq, hblocked, Bool.not_eq_false] at htaken
      exact htaken
    refine ⟨hblocked, fun htaken hle => ?_, fun htaken hlt => ?_⟩
    · simpa [Walkway.leg, hle, Walkway.isOn] using hon htaken
    · simpa [Walkway.leg_eq_column_iff.mpr hlt, Walkway.isOn] using hon htaken
  · intro hsat
    rw [Walkway.leg_eq_column_iff]
    rw [hhist.matcher_eq] at hsat ⊢
    have hpeak := (Matcher.follows_feedAll ho t.run.taken).length_le_peakStage ho hsat
    exact lt_of_lt_of_le (Level.turnStage_lt hlevel harea) hpeak
  · intro program u hne hu more hmore
    obtain rfl := eq_begun_of_start hne hu
    exact checkedLegs_eq (.begun t.level hne) hmore

/-- On the walkway: the row is walked, the turn is performed, and then the sequence is broken. -/
theorem footing_of_operations_theBend :
    let s : Session := ⟨Level.theBend, Run.fresh Level.theBend⟩
    let program : Program := [.forward, .forward, .forward, .turnRight, .turnLeft, .forward]
    let ops : List Op := [.tick, .tick, .drain, .tick, .tick, .tick, .start [.wait], .tick]
    (prepare Level.theBend).value = .ok s ∧
      ∃ w u, Level.theBend.area = .walkway w ∧ (s.start program).value = .ok u ∧ u.continues ops ∧
        ∃ a b, u.checkedLegs w ops = List.replicate a .row ++ List.replicate b .column := by
  intro s program ops
  have hs : (prepare Level.theBend).value = .ok s :=
    prepare_eq_ok_iff.mpr ⟨Level.validate_builtin _ (by simp [Level.builtins]), rfl⟩
  have hstart : (s.start program).value = .ok (begun Level.theBend program) := rfl
  obtain ⟨-, hpath⟩ := footing_of_operations hs []
  obtain ⟨-, -, -, hlegs⟩ := hpath _ rfl
  have hops : (begun Level.theBend program).continues ops = true := by decide +kernel
  exact ⟨hs, _, _, rfl, hstart, hops, hlegs program _ (by decide) hstart ops hops⟩

end Session

end Seahorse
