import Seahorse.Level.Load
import Seahorse.Proofs.FiniteScalars
import Seahorse.Proofs.History
import Seahorse.Proofs.ScalarSums

/-!
# The range of headings

A heading is never a NaN and lies in `(-π, π]`. The heading of a level may be any finite number, so
wrapping is what brings it into the range; the open end is kept by taking what is near to `-π` for π.
Of the sine, the cosine and the angle of a direction no more is used than that they are bounded
(`Heading.Bounded`), so wrapping has this range with any other three functions that are.
Turning adds at most π to a heading in the range, which stays finite, and wraps again. All other
commands leave the heading alone, so one heading out of the range would stay for a whole run.
-/

namespace Seahorse

/-! ## Wrapped angles -/

namespace Scalar

/-- What is held between two bounds lies between them, also if it was a NaN. -/
theorem clamp_mem {lo hi : Scalar} (h : lo ≤ hi) (x : Scalar) :
    lo ≤ clamp lo hi x ∧ clamp lo hi x ≤ hi := by
  obtain ⟨hlo, hhi⟩ := isNaN_eq_false_of_le h
  unfold clamp
  split_ifs with hle' hle
  · exact ⟨hle, hle'⟩
  · exact ⟨Scalar.le_self hlo, h⟩
  · exact ⟨h, Scalar.le_self hhi⟩

/-- The angle of a finite direction is at most π to either side. -/
theorem angleOf_mem {y x : Scalar} (hy : y.isFinite = true) (hx : x.isFinite = true) :
    -pi ≤ angleOf y x ∧ angleOf y x ≤ pi := by
  obtain ⟨⟨yNegative, ny⟩, hqy⟩ := exists_quanta hy
  obtain ⟨⟨xNegative, nx⟩, hqx⟩ := exists_quanta hx
  simp only [angleOf, hqy, hqx]
  exact clamp_mem (by decide +kernel) _

end Scalar

namespace Heading

/-- Whether a heading is a number in `(-π, π]`. -/
def InRange (heading : Scalar) : Prop :=
  heading.isNaN = false ∧ -Scalar.pi < heading ∧ heading ≤ Scalar.pi

instance (heading : Scalar) : Decidable (InRange heading) :=
  inferInstanceAs (Decidable (_ ∧ _))

/-- What is granted of a sine, a cosine and an angle of a direction. -/
structure Bounded (sin cos : Scalar → Scalar) (angleOf : Scalar → Scalar → Scalar) : Prop where
  sin_isFinite : ∀ {x}, x.isFinite = true → (sin x).isFinite = true
  cos_isFinite : ∀ {x}, x.isFinite = true → (cos x).isFinite = true
  angleOf_mem : ∀ {y x}, y.isFinite = true → x.isFinite = true →
    -Scalar.pi ≤ angleOf y x ∧ angleOf y x ≤ Scalar.pi

/-- The functions on scalars are bounded, since each ends with a comparison. -/
theorem bounded_scalar : Bounded Scalar.sin Scalar.cos Scalar.angleOf :=
  ⟨Scalar.isFinite_sin, Scalar.isFinite_cos, Scalar.angleOf_mem⟩

/-- Wrapping with any sine, cosine and angle of a direction. -/
def wrapBy (sin cos : Scalar → Scalar) (angleOf : Scalar → Scalar → Scalar) (angle : Scalar) :
    Scalar :=
  let wrapped := angleOf (sin angle) (cos angle)
  if wrapped ≤ -Scalar.pi + foldMargin then Scalar.pi else wrapped

theorem wrap_eq_wrapBy : wrap = wrapBy Scalar.sin Scalar.cos Scalar.angleOf :=
  rfl

/-- A finite angle is wrapped into the range by any bounded functions. The closed lower end of what an
angle of a direction may be is folded away. -/
theorem inRange_wrapBy {sin cos : Scalar → Scalar} {angleOf : Scalar → Scalar → Scalar}
    (hbounded : Bounded sin cos angleOf) {angle : Scalar} (h : angle.isFinite = true) :
    InRange (wrapBy sin cos angleOf angle) := by
  obtain ⟨hlower, hupper⟩ :=
    hbounded.angleOf_mem (hbounded.sin_isFinite h) (hbounded.cos_isFinite h)
  have hnan := (Scalar.isNaN_eq_false_of_le hlower).2
  unfold wrapBy
  by_cases hfold : angleOf (sin angle) (cos angle) ≤ -Scalar.pi + foldMargin
  · rw [if_pos hfold]
    decide +kernel
  · rw [if_neg hfold]
    have hmargin : -Scalar.pi < -Scalar.pi + foldMargin := by decide +kernel
    have habove := Scalar.lt_of_not_le (by decide +kernel) hnan hfold
    exact ⟨hnan, Scalar.lt_of_lt_of_le hmargin (Scalar.le_of_lt habove), hupper⟩

/-- A finite angle is wrapped into the range. -/
theorem inRange_wrap {angle : Scalar} (h : angle.isFinite = true) : InRange (wrap angle) := by
  rw [wrap_eq_wrapBy]
  exact inRange_wrapBy bounded_scalar h

theorem InRange.abs_rank_le {heading : Scalar} (h : InRange heading) :
    |heading.rank| ≤ Scalar.pi.rank := by
  obtain ⟨-, hlower, hupper⟩ := h
  obtain ⟨-, -, hlow⟩ := Scalar.lt_iff_rank.mp hlower
  obtain ⟨-, -, hhigh⟩ := Scalar.le_iff_rank.mp hupper
  have hneg : (-Scalar.pi).rank = -Scalar.pi.rank := by decide +kernel
  rw [hneg] at hlow
  exact abs_le.mpr ⟨hlow.le, hhigh⟩

/-- Turning a heading in the range by at most π gives a heading in the range. -/
theorem InRange.turned {heading angle : Scalar} (h : InRange heading) (hangle : angle.isFinite = true)
    (hsmall : |angle.rank| ≤ Scalar.pi.rank) : InRange (wrap (heading + angle)) := by
  have hfinite : heading.isFinite = true :=
    Scalar.isFinite_of_le_of_le (by decide +kernel) Scalar.isFinite_pi (Scalar.le_of_lt h.2.1) h.2.2
  have hpi : Scalar.pi.rank < 2 ^ 200 := by decide +kernel
  refine inRange_wrap (Scalar.isFinite_add hfinite hangle ?_)
  calc |heading.rank + angle.rank| ≤ |heading.rank| + |angle.rank| := abs_add_le _ _
    _ ≤ Scalar.pi.rank + Scalar.pi.rank := Int.add_le_add h.abs_rank_le hsmall
    _ < 2 ^ 201 := by omega

end Heading

/-- **Step.** A command keeps the heading or turns it by at most π. -/
theorem Pose.inRange_step {pose : Pose} (h : Heading.InRange pose.heading) (c : Command)
    (distance : Scalar) : Heading.InRange (pose.step c distance).heading := by
  cases c with
  | forward => exact h
  | backward => exact h
  | wait => exact h
  | turnLeft => exact h.turned (by decide +kernel) (by decide +kernel)
  | turnRight => exact h.turned (by decide +kernel) (by decide +kernel)
  | turnAround => exact h.turned (by decide +kernel) (by decide +kernel)

/-- A level that can be played is started in the range, whatever its heading is. -/
theorem Level.inRange_start {level : Level} (h : level.validate = .ok ()) :
    Heading.InRange level.start.wrapped.heading := by
  obtain ⟨-, -, -, hstart, -⟩ := validate_eq_ok_iff.mp h
  rw [Bool.and_eq_true_iff] at hstart
  exact Heading.inRange_wrap hstart.2

/-! ## What a run tells -/

namespace Move

theorem pose_outcome (m : Move) : m.outcome.pose = m.pose := by
  unfold outcome
  cases m.verdict <;> rfl

/-- The only pose that the events of a move tell of is the pose after it. -/
theorem pose_of_moved_mem {m : Move} {c : Command} {pose : Pose} (h : .moved c pose ∈ m.events) :
    pose = m.pose := by
  unfold events lastEvents at h
  rcases List.mem_append.mp h with h | h
  · rcases List.mem_append.mp h with h | h
    · rcases List.mem_cons.mp h with h | h
      · exact (Event.moved.inj h).2
      · obtain ⟨name, -, hname⟩ := List.mem_map.mp h
        cases hname
    · split_ifs at h
      · cases List.mem_singleton.mp h
      · cases h
  · cases hverdict : m.verdict <;> rw [hverdict] at h
    · cases h
    · cases List.mem_singleton.mp h
    · cases List.mem_singleton.mp h

end Move

namespace Run

/-- The heading of a run and those of its pending events are in the range. -/
structure Headed (run : Run) : Prop where
  pose : Heading.InRange run.pose.heading
  events : ∀ c pose, .moved c pose ∈ run.events → Heading.InRange pose.heading

/-- **Step.** A tick keeps the headings in the range, that of its outcome included. -/
theorem Headed.tick {run : Run} (h : run.Headed) (level : Level) :
    (∀ o, (run.tick level).1 = some o → Heading.InRange o.pose.heading) ∧
      (run.tick level).2.Headed := by
  rcases run.tick_cases level with ⟨-, ht⟩ | ⟨-, -, ht⟩ | ⟨-, -, c, ht | ht⟩ <;> rw [ht]
  · exact ⟨nofun, h⟩
  · refine ⟨?_, h.pose, h.events⟩
    intro o ho
    obtain rfl := Option.some.inj ho
    exact h.pose
  · refine ⟨?_, h.pose, ?_⟩
    · intro o ho
      obtain rfl := Option.some.inj ho
      exact h.pose
    · intro c' pose hmem
      rcases List.mem_append.mp hmem with hmem | hmem
      · exact h.events c' pose hmem
      · cases List.mem_singleton.mp hmem
  · have hpose : Heading.InRange (run.move level c).pose.heading := Pose.inRange_step h.pose c _
    refine ⟨?_, hpose, ?_⟩
    · intro o ho
      obtain rfl := Option.some.inj ho
      rw [Move.pose_outcome]
      exact hpose
    · intro c' pose hmem
      rcases List.mem_append.mp hmem with hmem | hmem
      · exact h.events c' pose hmem
      · rw [Move.pose_of_moved_mem hmem]
        exact hpose

theorem headed_fresh {level : Level} (h : level.validate = .ok ()) : (fresh level).Headed :=
  ⟨Level.inRange_start h, nofun⟩

theorem headed_begun {level : Level} (h : level.validate = .ok ()) (program : Program) :
    (Session.begun level program).run.Headed := by
  refine ⟨Level.inRange_start h, ?_⟩
  intro c pose hmem
  cases List.mem_singleton.mp hmem

end Run

namespace Session

/-- The headings that an answer tells of are in the range. -/
structure Answer.Headed (answer : Answer) : Prop where
  outcome : ∀ o, answer = .ticked (some o) → Heading.InRange o.pose.heading
  events : ∀ c pose, .moved c pose ∈ answer.events → Heading.InRange pose.heading

/-- **Step.** So does every operation on a session. -/
theorem headed_perform {s : Session} (hlevel : s.level.validate = .ok ()) (h : s.run.Headed)
    (op : Op) : (s.perform op).1.Headed ∧ (s.perform op).2.run.Headed := by
  cases op with
  | start program =>
    have hanswer : ∀ o, (s.perform (.start program)).1 ≠ .ticked o := by
      intro o
      unfold perform
      dsimp only
      split <;> exact nofun
    refine ⟨⟨fun o ho => absurd ho (hanswer _), ?_⟩, ?_⟩
    · intro c pose hmem
      rw [perform_start_events] at hmem
      cases hmem
    · rcases s.perform_start_cases program with ⟨hs, -⟩ | ⟨hs, -, -⟩ <;> rw [hs]
      · exact h
      · exact Run.headed_begun hlevel program
  | tick =>
    obtain ⟨houtcome, hrun⟩ := h.tick s.level
    refine ⟨⟨?_, nofun⟩, hrun⟩
    intro o ho
    exact houtcome o (Answer.ticked.inj ho)
  | reset => exact ⟨⟨nofun, nofun⟩, Run.headed_fresh hlevel⟩
  | drain => exact ⟨⟨nofun, h.events⟩, h.pose, nofun⟩

/-- **Headings stay in the range.** Whatever is done with a session on a level that can be played,
with any finite heading at the start: the current heading, the heading of every outcome, and the
heading of every move that is told of or still pending is a number in `(-π, π]`. The heading of a level
that was loaded is in that range from the start. -/
theorem headings_of_operations :
    (∀ {level : Level} {s : Session}, (prepare level).value = .ok s → ∀ ops : List Op,
      let answers := (s.performAll ops).1
      let t := (s.performAll ops).2
      Heading.InRange t.run.pose.heading ∧
      (∀ o, .ticked (some o) ∈ answers → Heading.InRange o.pose.heading) ∧
      (∀ answer ∈ answers, ∀ c pose, .moved c pose ∈ answer.events →
        Heading.InRange pose.heading) ∧
      ∀ c pose, .moved c pose ∈ t.run.events → Heading.InRange pose.heading) ∧
    ∀ {text : String} {level : Level}, Level.ofText text = .ok level →
      Heading.InRange level.start.heading := by
  have hstep (u : Session) (op : Op) (hu : u.level.validate = .ok () ∧ u.run.Headed) :
      (u.perform op).1.Headed ∧
        (u.perform op).2.level.validate = .ok () ∧ (u.perform op).2.run.Headed := by
    obtain ⟨hanswer, hrun⟩ := headed_perform hu.1 hu.2 op
    rw [perform_level]
    exact ⟨hanswer, hu.1, hrun⟩
  constructor
  · intro level s hs ops answers t
    obtain ⟨hlevel, rfl⟩ := prepare_eq_ok_iff.mp hs
    obtain ⟨hanswers, -, hlast⟩ := preserved_answers hstep
      (s := ⟨level, Run.fresh level⟩) ⟨hlevel, Run.headed_fresh hlevel⟩ ops
    exact ⟨hlast.pose, fun o ho => (hanswers _ ho).outcome o rfl,
      fun answer ha => (hanswers answer ha).events, hlast.events⟩
  · intro text level h
    obtain ⟨raw, -, hvalid, rfl⟩ := Level.ofText_eq_ok_iff.mp h
    exact Level.inRange_start hvalid

/-- The walkway, entered after more than six turns on the spot. -/
def dizzyBend : Level :=
  { Level.theBend with start := ⟨-3.5, -6, 40⟩ }

theorem headings_of_operations_dizzyBend :
    let s : Session := ⟨dizzyBend, Run.fresh dizzyBend⟩
    let ops : List Op := [.start [.turnAround, .forward, .turnLeft], .tick, .reset,
      .start [.turnRight, .turnRight], .tick, .drain, .tick]
    (prepare dizzyBend).value = .ok s ∧ ¬ Heading.InRange dizzyBend.start.heading ∧
      Heading.InRange (s.performAll ops).2.run.pose.heading ∧
      ∀ c pose, .moved c pose ∈ (s.performAll ops).2.run.events → Heading.InRange pose.heading := by
  intro s ops
  have hvalid : dizzyBend.validate = .ok () := by
    rw [Level.validate_eq_ok_iff]
    decide +kernel
  have hs : (prepare dizzyBend).value = .ok s := prepare_eq_ok_iff.mpr ⟨hvalid, rfl⟩
  obtain ⟨hpose, -, -, hevents⟩ := headings_of_operations.1 hs ops
  exact ⟨hs, by decide +kernel, hpose, hevents⟩

end Session

end Seahorse
