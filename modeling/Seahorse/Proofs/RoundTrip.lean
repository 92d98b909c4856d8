import Seahorse.Codec.Player
import Seahorse.Codec.Run
import Seahorse.Proofs.Json.Records

/-!
# What is written is read back

For every type that has a JSON form, the text of a value is read as this value. Three things cannot be
part of a text. A scalar that is not finite has no numeral, so the scalars of a value are asked to be
finite. A count that does not fit 64 bits is not read as a count. And whether a target has been
collected belongs to a run, so a target is read as one that is not.
-/

namespace Seahorse

open Json (StandsFor)

/-! ## Choices without data -/

/-- A command is read back from its name, as it comes or out of memory. -/
theorem Command.standsFor (c : Command) (held : Bool) : StandsFor (ofJson? held) 0 c.toJson c :=
  .oneOf (by cases c <;> decide) (by cases c <;> decide) held

theorem Violation.standsFor (v : Violation) (held : Bool) : StandsFor (ofJson? held) 0 v.toJson v :=
  .oneOf (by cases v <;> decide) (by cases v <;> decide) held

theorem Completion.standsFor (c : Completion) : StandsFor ofJson? 0 c.toJson c :=
  .oneOf (by cases c <;> decide) (by cases c <;> decide) false

theorem Phase.standsFor (p : Phase) : StandsFor ofJson? 0 p.toJson p :=
  .oneOf (by cases p <;> decide) (by cases p <;> decide) false

theorem Pace.standsFor (p : Pace) : StandsFor ofJson? 0 p.toJson p :=
  .oneOf (by cases p <;> decide) (by cases p <;> decide) false

/-- A program is read back, empty or not. -/
theorem Program.standsFor (p : Program) : StandsFor ofJson? 1 (toJson p) p := by
  have h := StandsFor.list (l := p) (f := id) fun c _ => c.standsFor false
  rwa [List.map_id] at h

/-! ## Records of scalars -/

namespace Pose

/-- The scalars of a pose. -/
def scalars (p : Pose) : List Scalar :=
  [p.x, p.z, p.heading]

/-- A pose is one container deep, whatever its scalars are. -/
theorem holdable_toJson (p : Pose) {room : Nat} (hroom : 1 ≤ room) :
    p.toJson.holdable room = true :=
  Json.holdable_object hroom (by simp [Json.holdable_ofScalar])

/-- A pose of finite scalars is read back. -/
theorem standsFor {p : Pose} (h : ∀ x ∈ p.scalars, x.isFinite = true) :
    StandsFor ofJson? 1 p.toJson p := by
  have hx := StandsFor.scalar (h p.x (by simp [scalars]))
  have hz := StandsFor.scalar (h p.z (by simp [scalars]))
  have hheading := StandsFor.scalar (h p.heading (by simp [scalars]))
  refine .fields (show ["x", "z", "heading"].Nodup by decide) (fun _ => p.holdable_toJson)
    fun j hslots => ?_
  simp only [List.map_cons, List.map_nil] at hslots
  simp [ofJson?, hslots, hx.read, hz.read, hheading.read]

end Pose

namespace Point

/-- The scalars of a point. -/
def scalars (p : Point) : List Scalar :=
  [p.x, p.z]

theorem holdable_toJson (p : Point) {room : Nat} (hroom : 1 ≤ room) :
    p.toJson.holdable room = true :=
  Json.holdable_array hroom (by simp [Json.holdable_ofScalar])

/-- A point of finite scalars is read back. -/
theorem standsFor {p : Point} (h : ∀ x ∈ p.scalars, x.isFinite = true) :
    StandsFor ofJson? 1 p.toJson p := by
  have hx := StandsFor.scalar (h p.x (by simp [scalars]))
  have hz := StandsFor.scalar (h p.z (by simp [scalars]))
  exact ⟨by simp [ofJson?, toJson, hx.read, hz.read], fun _ => p.holdable_toJson⟩

end Point

namespace Span

/-- The scalars of a span. -/
def scalars (s : Span) : List Scalar :=
  [s.low, s.high]

theorem holdable_toJson (s : Span) {room : Nat} (hroom : 1 ≤ room) :
    s.toJson.holdable room = true :=
  Json.holdable_object hroom (by simp [Json.holdable_ofScalar])

/-- A span with finite ends is read back, in order or not. -/
theorem standsFor {s : Span} (h : ∀ x ∈ s.scalars, x.isFinite = true) :
    StandsFor ofJson? 1 s.toJson s := by
  have hlow := StandsFor.scalar (h s.low (by simp [scalars]))
  have hhigh := StandsFor.scalar (h s.high (by simp [scalars]))
  refine .fields (show ["min", "max"].Nodup by decide) (fun _ => s.holdable_toJson)
    fun j hslots => ?_
  simp only [List.map_cons, List.map_nil] at hslots
  simp [ofJson?, hslots, hlow.read, hhigh.read]

end Span

namespace Settings

/-- The scalars of settings. -/
def scalars (s : Settings) : List Scalar :=
  [s.completionDelay, s.messageDuration]

theorem holdable_toJson (s : Settings) {room : Nat} (hroom : 1 ≤ room) :
    s.toJson.holdable room = true :=
  Json.holdable_object hroom (by simp [Pace.toJson, Json.holdable, Json.holdable_ofScalar])

/-- Settings with finite times are read back. -/
theorem standsFor {s : Settings} (h : ∀ x ∈ s.scalars, x.isFinite = true) :
    StandsFor ofJson? 1 s.toJson s := by
  have hpace := s.pace.standsFor
  have hdelay := StandsFor.scalar (h s.completionDelay (by simp [scalars]))
  have hduration := StandsFor.scalar (h s.messageDuration (by simp [scalars]))
  have hmotion := StandsFor.bool s.reducedMotion
  refine .fields (show ["pacing", "completion_delay", "message_duration", "reduced_motion"].Nodup
    by decide) (fun _ => s.holdable_toJson) fun j hslots => ?_
  simp only [List.map_cons, List.map_nil] at hslots
  simp [ofJson?, hslots, hpace.read, hdelay.read, hduration.read, hmotion.read]

end Settings

/-! ## Areas -/

namespace Walkway

/-- The scalars of a walkway. -/
def scalars (w : Walkway) : List Scalar :=
  w.rowZ :: w.columns.scalars ++ w.columnX :: w.rows.scalars ++ [w.tolerance]

/-- What keeps a walkway from being held in memory is its count alone. -/
theorem holdable_toJson {w : Walkway} (hturn : w.turnStage < UInt64.size) {room : Nat}
    (hroom : 2 ≤ room) : w.toJson.holdable room = true := by
  refine Json.holdable_object (by omega) ?_
  simp (disch := omega) [members, Json.holdable_ofScalar, Span.holdable_toJson,
    Json.holdable_ofNat hturn]

/-- A walkway of finite scalars whose turn is a count of 64 bits is read back. -/
theorem standsFor {w : Walkway} (h : ∀ x ∈ w.scalars, x.isFinite = true)
    (hturn : w.turnStage < UInt64.size) :
    StandsFor ofJson? 2 w.toJson w := by
  have hrow := StandsFor.scalar (h w.rowZ (by simp [scalars]))
  have hcolumns := Span.standsFor (s := w.columns) fun x hx => h x (by simp [scalars, hx])
  have hcolumn := StandsFor.scalar (h w.columnX (by simp [scalars]))
  have hrows := Span.standsFor (s := w.rows) fun x hx => h x (by simp [scalars, hx])
  have hstage := StandsFor.index hturn
  have htolerance := StandsFor.scalar (h w.tolerance (by simp [scalars]))
  refine .fields (show ["row_z", "columns", "turn_column_x", "rows", "turn_stage", "epsilon"].Nodup
    by decide) (fun _ => holdable_toJson hturn) fun j hslots => ?_
  simp only [members, List.map_cons, List.map_nil] at hslots
  simp [ofJson?, hslots, hrow.read, hcolumns.read, hcolumn.read, hrows.read, hstage.read,
    htolerance.read]

end Walkway

namespace Area

/-- The scalars of an area. -/
def scalars : Area → List Scalar
  | .platform x z => x.scalars ++ z.scalars
  | .walkway w => w.scalars

/-- The counts of an area. -/
def counts : Area → List Nat
  | .platform _ _ => []
  | .walkway w => [w.turnStage]

theorem holdable_toJson {area : Area} (hcounts : ∀ n ∈ area.counts, n < UInt64.size) {room : Nat}
    (hroom : 2 ≤ room) : area.toJson.holdable room = true := by
  cases area with
  | platform x z =>
    refine Json.holdable_object (by omega) ?_
    simp (disch := omega) [Json.holdable, Span.holdable_toJson]
  | walkway w =>
    exact Json.holdable_tagged _ _ (Walkway.holdable_toJson (hcounts _ (by simp [counts])) hroom)

/-- An area is read back where there is room for it: it is held in memory until its kind is known. -/
theorem standsFor {area : Area} (h : ∀ x ∈ area.scalars, x.isFinite = true)
    (hcounts : ∀ n ∈ area.counts, n < UInt64.size) {around : Nat}
    (haround : around + 2 ≤ Json.maxDepth) :
    StandsFor (ofJson? around) 2 area.toJson area := by
  refine ⟨?_, fun _ => holdable_toJson hcounts⟩
  rw [ofJson?, if_pos (holdable_toJson hcounts (by omega))]
  cases area with
  | platform x z =>
    have hx := Span.standsFor (s := x) fun y hy => h y (by simp [scalars, hy])
    have hz := Span.standsFor (s := z) fun y hy => h y (by simp [scalars, hy])
    have hslots : (Json.object [("x", x.toJson), ("z", z.toJson)]).slots? ["x", "z"] =
        some [some x.toJson, some z.toJson] :=
      Json.slots?_object (show ["x", "z"].Nodup by decide)
    rw [toJson, Json.tagged?_cons (show "kind" ∉ ["x", "z"] by decide)]
    simp [hslots, hx.read, hz.read]
  | walkway w =>
    have hw := (Walkway.standsFor h (hcounts _ (by simp [counts]))).read
    rw [Walkway.toJson] at hw
    rw [toJson, Json.tagged?_cons (by simp [Walkway.members])]
    simp [hw]

end Area

/-! ## Levels -/

namespace Target

/-- The scalars of a target. -/
def scalars (t : Target) : List Scalar :=
  t.position.scalars ++ [t.radius]

theorem holdable_toJson (t : Target) {room : Nat} (hroom : 2 ≤ room) :
    t.toJson.holdable room = true := by
  refine Json.holdable_object (by omega) ?_
  simp (disch := omega) [Json.holdable, Json.holdable_ofScalar, Point.holdable_toJson]

/-- A target is read back as one that is not collected. -/
theorem standsFor {t : Target} (h : ∀ x ∈ t.scalars, x.isFinite = true) :
    StandsFor ofJson? 2 t.toJson t.fresh := by
  have hname := StandsFor.string t.name
  have hposition := Point.standsFor (p := t.position) fun x hx => h x (by simp [scalars, hx])
  have hradius := StandsFor.scalar (h t.radius (by simp [scalars]))
  have hrequired := StandsFor.bool t.required
  refine .fields (show ["name", "position", "radius", "required"].Nodup by decide)
    (fun _ => t.holdable_toJson) fun j hslots => ?_
  simp only [List.map_cons, List.map_nil] at hslots
  simp [ofJson?, hslots, hname.read, hposition.read, hradius.read, hrequired.read, fresh]

end Target

/-- A group is read back: its count is a word, and every word is below the bound of a word. -/
theorem Group.standsFor (g : Group) : StandsFor ofJson? 1 g.toJson g := by
  have hcommand := g.command.standsFor false
  have hcount := StandsFor.word32 g.count
  refine .record (show ["command", "count"].Nodup by decide) (fun room hroom => ?_) fun j hslots => ?_
  · simp (disch := omega) [hcommand.holdable, hcount.holdable]
  · simp only [List.map_cons, List.map_nil] at hslots
    simp [ofJson?, hslots, hcommand.read, hcount.read]

/-- An objective is written as its groups alone. -/
theorem Objective.standsFor (o : Objective) : StandsFor ofJson? 2 o.toJson o := by
  have h := StandsFor.list (l := o.groups) (f := id) fun g _ => g.standsFor
  rw [List.map_id] at h
  exact ⟨by rw [ofJson?, toJson, h.read, Option.map_some], h.holdable⟩

namespace Level

/-- The scalars of a level. -/
def scalars (level : Level) : List Scalar :=
  level.stepDistance :: level.start.scalars ++ level.area.scalars ++
    level.targets.flatMap Target.scalars

/-- The level before any of its targets is collected. -/
def fresh (level : Level) : Level :=
  { level with targets := level.targets.map Target.fresh }

theorem holdable_toJson {level : Level} (hcounts : ∀ n ∈ level.area.counts, n < UInt64.size)
    {room : Nat} (hroom : 4 ≤ room) : level.toJson.holdable room = true := by
  have htargets : (Json.array (level.targets.map Target.toJson)).holdable (room - 1) = true := by
    refine Json.holdable_array (by omega) fun j hj => ?_
    obtain ⟨t, -, rfl⟩ := List.mem_map.mp hj
    exact t.holdable_toJson (by omega)
  refine Json.holdable_object (by omega) ?_
  simp (disch := omega) [Json.holdable_ofScalar, Pose.holdable_toJson, htargets,
    Area.holdable_toJson hcounts, (StandsFor.string _).holdable,
    level.objective.standsFor.holdable, level.completion.standsFor.holdable]

/-- A level of finite scalars is read back with no target collected. -/
theorem standsFor {level : Level} (h : ∀ x ∈ level.scalars, x.isFinite = true)
    (hcounts : ∀ n ∈ level.area.counts, n < UInt64.size) :
    StandsFor ofJson? 4 level.toJson level.fresh := by
  have hid := StandsFor.string level.id
  have htitle := StandsFor.string level.title
  have hstep := StandsFor.scalar (h level.stepDistance (by simp [scalars]))
  have hstart := Pose.standsFor (p := level.start) fun x hx => h x (by simp [scalars, hx])
  have harea : StandsFor (Area.ofJson? 1) 2 level.area.toJson level.area :=
    Area.standsFor (fun x hx => h x (by simp [scalars, hx])) hcounts (by decide)
  have htargets := StandsFor.list (l := level.targets) (f := Target.fresh) fun t ht =>
    t.standsFor fun x hx => h x (by simp only [scalars, List.mem_append, List.mem_flatMap]; grind)
  have hobjective := level.objective.standsFor
  have hcompletion := level.completion.standsFor
  refine .fields (show ["id", "title", "step_distance", "start", "constraint", "targets", "objective",
    "completion"].Nodup by decide) (fun _ => holdable_toJson hcounts) fun j hslots => ?_
  simp only [List.map_cons, List.map_nil] at hslots
  simp [ofJson?, hslots, hid.read, htitle.read, hstep.read, hstart.read, harea.read, htargets.read,
    hobjective.read, hcompletion.read, fresh]

end Level

/-! ## Runs -/

namespace Matcher

/-- The counts of a matcher. -/
def counts (m : Matcher) : List Nat :=
  [m.stage, m.peakStage]

/-- A matcher with counts of 64 bits is read back. -/
theorem standsFor {m : Matcher} (h : ∀ n ∈ m.counts, n < UInt64.size) :
    StandsFor ofJson? 1 m.toJson m := by
  have hstage := StandsFor.index (h m.stage (by simp [counts]))
  have hcount := StandsFor.word32 m.countInStage
  have hderailed := StandsFor.bool m.derailed
  have hpeak := StandsFor.index (h m.peakStage (by simp [counts]))
  refine .record (show ["stage", "count_in_stage", "derailed", "peak_stage"].Nodup by decide)
    (fun room hroom => ?_) fun j hslots => ?_
  · simp (disch := omega) [hstage.holdable, hcount.holdable, hderailed.holdable, hpeak.holdable]
  · simp only [List.map_cons, List.map_nil] at hslots
    simp [ofJson?, hslots, hstage.read, hcount.read, hderailed.read, hpeak.read]

end Matcher

theorem Json.StandsFor.names (names : List String) :
    StandsFor (list? string?) 1 (ofNames names) names := by
  have h := StandsFor.list (l := names) (f := id) fun s _ => StandsFor.string s
  rwa [List.map_id] at h

namespace Event

/-- The scalars of an event. -/
def scalars : Event → List Scalar
  | .moved _ pose => pose.scalars
  | _ => []

/-- The counts of an event. -/
def counts : Event → List Nat
  | .started commands => [commands]
  | _ => []

/-- An event is read back by its type. Held in memory, the names inside it are read as they are. -/
theorem standsFor {e : Event} (h : ∀ x ∈ e.scalars, x.isFinite = true)
    (hcounts : ∀ n ∈ e.counts, n < UInt64.size) : StandsFor ofJson? 2 e.toJson e := by
  have tagged {s : String} {ms : List (String × Json)} (hms : "type" ∉ ms.map Prod.fst)
      (hbody : StandsFor (ofTagged? s) 2 (.object ms) e) :
      StandsFor ofJson? 2 (.object (("type", .string s) :: ms)) e :=
    .tagged hms hbody (show 2 ≤ Json.maxDepth by decide)
  cases e with
  | started commands =>
    have hcommands := StandsFor.index (hcounts commands (by simp [counts]))
    refine tagged (by simp) (.record (by simp) (fun room hroom => ?_) fun j hslots => ?_)
    · simp (disch := omega) [hcommands.holdable]
    · simp only [List.map_cons, List.map_nil] at hslots
      simp [ofTagged?, hslots, hcommands.read]
  | moved command pose =>
    have hcommand := command.standsFor true
    have hpose := Pose.standsFor (p := pose) h
    refine tagged (by simp) (.record (by simp) (fun room hroom => ?_) fun j hslots => ?_)
    · simp (disch := omega) [hcommand.holdable, hpose.holdable]
    · simp only [List.map_cons, List.map_nil] at hslots
      simp [ofTagged?, hslots, hcommand.read, hpose.read]
  | captured name =>
    have hname := StandsFor.string name
    refine tagged (by simp) (.record (by simp) (fun room hroom => ?_) fun j hslots => ?_)
    · simp (disch := omega) [hname.holdable]
    · simp only [List.map_cons, List.map_nil] at hslots
      simp [ofTagged?, hslots, hname.read]
  | objectiveSatisfied =>
    refine tagged (by simp) (.record (by simp) (by simp) fun j hslots => ?_)
    simp only [List.map_nil] at hslots
    simp [ofTagged?, hslots]
  | aborted reason message =>
    have hreason := reason.standsFor true
    have hmessage := StandsFor.string message
    refine tagged (by simp) (.record (by simp) (fun room hroom => ?_) fun j hslots => ?_)
    · simp (disch := omega) [hreason.holdable, hmessage.holdable]
    · simp only [List.map_cons, List.map_nil] at hslots
      simp [ofTagged?, hslots, hreason.read, hmessage.read]
  | completed collected =>
    have hcollected := StandsFor.names collected
    refine tagged (by simp) (.record (by simp) (fun room hroom => ?_) fun j hslots => ?_)
    · simp (disch := omega) [hcollected.holdable]
    · simp only [List.map_cons, List.map_nil] at hslots
      simp [ofTagged?, hslots, hcollected.read]
  | exhausted =>
    refine tagged (by simp) (.record (by simp) (by simp) fun j hslots => ?_)
    simp only [List.map_nil] at hslots
    simp [ofTagged?, hslots]

end Event

namespace Outcome

/-- The scalars of an outcome, those of the pose after it. -/
def scalars (o : Outcome) : List Scalar :=
  o.pose.scalars

/-- An outcome is read back by its status, if the pose after it is finite. -/
theorem standsFor {o : Outcome} (h : ∀ x ∈ o.scalars, x.isFinite = true) :
    StandsFor ofJson? 2 o.toJson o := by
  have tagged {s : String} {ms : List (String × Json)} (hms : "status" ∉ ms.map Prod.fst)
      (hbody : StandsFor (ofTagged? s) 2 (.object ms) o) :
      StandsFor ofJson? 2 (.object (("status", .string s) :: ms)) o :=
    .tagged hms hbody (show 2 ≤ Json.maxDepth by decide)
  cases o with
  | continued pose =>
    have hpose := Pose.standsFor (p := pose) h
    refine tagged (by simp) (.record (by simp) (fun room hroom => ?_) fun j hslots => ?_)
    · simp (disch := omega) [hpose.holdable]
    · simp only [List.map_cons, List.map_nil] at hslots
      simp [ofTagged?, hslots, hpose.read]
  | aborted reason pose =>
    have hpose := Pose.standsFor (p := pose) h
    have hreason := reason.standsFor true
    refine tagged (by simp) (.record (by simp) (fun room hroom => ?_) fun j hslots => ?_)
    · simp (disch := omega) [hreason.holdable, hpose.holdable]
    · simp only [List.map_cons, List.map_nil] at hslots
      simp [ofTagged?, hslots, hreason.read, hpose.read]
  | completed pose collected =>
    have hpose := Pose.standsFor (p := pose) h
    have hcollected := StandsFor.names collected
    refine tagged (by simp) (.record (by simp) (fun room hroom => ?_) fun j hslots => ?_)
    · simp (disch := omega) [hpose.holdable, hcollected.holdable]
    · simp only [List.map_cons, List.map_nil] at hslots
      simp [ofTagged?, hslots, hpose.read, hcollected.read]
  | exhausted pose =>
    have hpose := Pose.standsFor (p := pose) h
    refine tagged (by simp) (.record (by simp) (fun room hroom => ?_) fun j hslots => ?_)
    · simp (disch := omega) [hpose.holdable]
    · simp only [List.map_cons, List.map_nil] at hslots
      simp [ofTagged?, hslots, hpose.read]

end Outcome

/-! ## All types -/

/-- The compact text of a value is read as the value, for every type that has one. A value may hold
any texts, any counts of 64 bits and any finite scalars; a target is read as not collected. For a level
the same holds of its indented text. -/
theorem Json.decode?_render_of_isFinite :
    (∀ c : Command, decode? (Command.ofJson? false) c.toJson.render = some c) ∧
    (∀ v : Violation, decode? (Violation.ofJson? false) v.toJson.render = some v) ∧
    (∀ c : Completion, decode? Completion.ofJson? c.toJson.render = some c) ∧
    (∀ p : Phase, decode? Phase.ofJson? p.toJson.render = some p) ∧
    (∀ p : Pace, decode? Pace.ofJson? p.toJson.render = some p) ∧
    (∀ p : Program, decode? Program.ofJson? p.toJson.render = some p) ∧
    (∀ o : Objective, decode? Objective.ofJson? o.toJson.render = some o) ∧
    (∀ p : Pose, (∀ x ∈ p.scalars, x.isFinite = true) →
      decode? Pose.ofJson? p.toJson.render = some p) ∧
    (∀ s : Span, (∀ x ∈ s.scalars, x.isFinite = true) →
      decode? Span.ofJson? s.toJson.render = some s) ∧
    (∀ s : Settings, (∀ x ∈ s.scalars, x.isFinite = true) → Settings.ofText? s.text = some s) ∧
    (∀ w : Walkway, (∀ x ∈ w.scalars, x.isFinite = true) → w.turnStage < UInt64.size →
      decode? Walkway.ofJson? w.toJson.render = some w) ∧
    (∀ a : Area, (∀ x ∈ a.scalars, x.isFinite = true) → (∀ n ∈ a.counts, n < UInt64.size) →
      decode? (Area.ofJson? 0) a.toJson.render = some a) ∧
    (∀ t : Target, (∀ x ∈ t.scalars, x.isFinite = true) →
      decode? Target.ofJson? t.toJson.render = some t.fresh) ∧
    (∀ m : Matcher, (∀ n ∈ m.counts, n < UInt64.size) →
      decode? Matcher.ofJson? m.toJson.render = some m) ∧
    (∀ e : Event, (∀ x ∈ e.scalars, x.isFinite = true) → (∀ n ∈ e.counts, n < UInt64.size) →
      decode? Event.ofJson? e.toJson.render = some e) ∧
    (∀ o : Outcome, (∀ x ∈ o.scalars, x.isFinite = true) →
      decode? Outcome.ofJson? o.toJson.render = some o) ∧
    (∀ level : Level, (∀ x ∈ level.scalars, x.isFinite = true) →
      (∀ n ∈ level.area.counts, n < UInt64.size) →
      Level.ofText? level.toJson.render = some level.fresh ∧
      Level.ofText? level.text = some level.fresh) := by
  refine ⟨fun c => (c.standsFor false).decode?_render, fun v => (v.standsFor false).decode?_render,
    fun c => c.standsFor.decode?_render, fun p => p.standsFor.decode?_render,
    fun p => p.standsFor.decode?_render, fun p => (Program.standsFor p).decode?_render,
    fun o => o.standsFor.decode?_render, fun p hp => (p.standsFor hp).decode?_render,
    fun s hs => (s.standsFor hs).decode?_render, fun s hs => (s.standsFor hs).decode?_render,
    fun w hw hturn => (w.standsFor hw hturn).decode?_render, fun a ha hcounts => ?_,
    fun t ht => (t.standsFor ht).decode?_render, fun m hm => (m.standsFor hm).decode?_render,
    fun e he hcounts => (e.standsFor he hcounts).decode?_render,
    fun o ho => (o.standsFor ho).decode?_render, fun level hlevel hcounts => ?_⟩
  · have harea : StandsFor (Area.ofJson? 0) 2 a.toJson a := a.standsFor ha hcounts (by decide)
    exact harea.decode?_render
  · have hlevel := level.standsFor hlevel hcounts
    exact ⟨hlevel.decode?_render, hlevel.decode?_renderIndented⟩

/-- A level with texts that need escapes, the largest and the smallest scalar, both zeros, the largest
counts and a target that has been collected. -/
def Level.extremes : Level where
  id := "\"a\\b\"\x00\n\x7f"
  title := "é 漢字 😀"
  stepDistance := 1e-45
  start := ⟨-0.0, 0.0, 3.4028235e38⟩
  area := .walkway
    ⟨0.1, ⟨-3.4028235e38, -1e-45⟩, 16777216.0, ⟨1.1754944e-38, 0.3⟩, 18446744073709551615, 1e-6⟩
  targets := [⟨"", ⟨1e10, -123456.79⟩, 2.5, false, true⟩]
  objective := ⟨[⟨.forward, 4294967295⟩, ⟨.turnLeft, 0⟩]⟩
  completion := .targetsOnly

theorem Json.decode?_render_of_isFinite_extremes :
    (∀ x ∈ Level.extremes.scalars, x.isFinite = true) ∧
    (∀ n ∈ Level.extremes.area.counts, n < UInt64.size) ∧ Level.extremes.fresh ≠ Level.extremes ∧
    Level.ofText? Level.extremes.toJson.render = some Level.extremes.fresh ∧
    Level.ofText? Level.extremes.text = some Level.extremes.fresh := by
  have hscalars : ∀ x ∈ Level.extremes.scalars, x.isFinite = true := by decide +kernel
  have hcounts : ∀ n ∈ Level.extremes.area.counts, n < UInt64.size := by decide
  obtain ⟨-, -, -, -, -, -, -, -, -, -, -, -, -, -, -, -, hlevel⟩ := decode?_render_of_isFinite
  exact ⟨hscalars, hcounts, by decide +kernel, hlevel Level.extremes hscalars hcounts⟩

end Seahorse
