import Seahorse.Level.Load
import Seahorse.Proofs.Course
import Seahorse.Proofs.FiniteScalars
import Seahorse.Proofs.RoundTrip

/-!
# Loading a level that was loaded before

A level that has been loaded can be written and loaded again, and is then the same but for its heading,
which is wrapped once more. This takes every scalar to be finite. Most are, since a level is checked,
and the row of a walkway is, since the start lies on it. Three kinds are not checked, and a numeral
beyond the largest scalar makes each of them an infinity: where the column of a walkway lies, its
tolerance, and where a target lies. With one of them the level is loaded, but its text is not.
-/

namespace Seahorse

open Json (StandsFor)

/-- The scalars of an area that can be infinite in a level that can be played. -/
def Area.unchecked : Area → List Scalar
  | .platform _ _ => []
  | .walkway w => [w.columnX, w.tolerance]

/-- The scalars of a level that can be infinite although the level can be played. -/
def Level.unchecked (level : Level) : List Scalar :=
  level.area.unchecked ++ level.targets.flatMap fun t => t.position.scalars

/-! ## What a check says about scalars -/

theorem Span.isFinite_of_isProper {s : Span} (h : s.isProper = true) :
    ∀ x ∈ s.scalars, x.isFinite = true := by
  simp only [isProper, Bool.and_eq_true_iff] at h
  simp [scalars, h.1.1, h.1.2]

/-- An area without a fault that allows a finite start has only finite scalars, but for the
unchecked ones. -/
theorem Area.isFinite_of_fault?_eq_none {area : Area} {p : Point} (hfault : area.fault? = none)
    (hp : p.z.isFinite = true) (hallows : area.allows p 0 = true)
    (hopen : ∀ x ∈ area.unchecked, x.isFinite = true) : ∀ x ∈ area.scalars, x.isFinite = true := by
  cases area with
  | platform x z =>
    have hspans : x.isProper = true ∧ z.isProper = true := by simpa [fault?] using hfault
    intro y hy
    rcases List.mem_append.mp hy with hy | hy
    · exact Span.isFinite_of_isProper hspans.1 y hy
    · exact Span.isFinite_of_isProper hspans.2 y hy
  | walkway w =>
    have hspans : w.columns.isProper = true ∧ w.rows.isProper = true := by
      cases hproper : w.columns.isProper && w.rows.isProper with
      | true => exact Bool.and_eq_true_iff.mp hproper
      | false =>
        rw [fault?, hproper] at hfault
        cases hfault
    have hcolumn : w.columnX.isFinite = true := hopen _ (by simp [unchecked])
    have htolerance : w.tolerance.isFinite = true := hopen _ (by simp [unchecked])
    -- the start lies within the tolerance of the row
    have hrow : w.rowZ.isFinite = true := by
      have hon : w.onRow p = true := by simpa [allows] using hallows
      rw [Walkway.onRow, Bool.and_eq_true_iff] at hon
      exact Scalar.isFinite_of_abs_sub_le hp htolerance (of_decide_eq_true hon.1)
    intro x hx
    simp only [scalars, Walkway.scalars, List.mem_append, List.mem_cons, List.not_mem_nil,
      or_false] at hx
    rcases hx with ((rfl | hx) | rfl | hx) | rfl
    · exact hrow
    · exact Span.isFinite_of_isProper hspans.1 x hx
    · exact hcolumn
    · exact Span.isFinite_of_isProper hspans.2 x hx
    · exact htolerance

namespace Level

/-- In a level that can be played, all other scalars are finite. -/
theorem isFinite_of_validate {level : Level} (h : level.validate = .ok ())
    (hopen : ∀ x ∈ level.unchecked, x.isFinite = true) : ∀ x ∈ level.scalars, x.isFinite = true := by
  obtain ⟨-, hstep, hradius, hstart, -, harea, -, hallows⟩ := validate_eq_ok_iff.mp h
  simp only [Bool.and_eq_true_iff] at hstep hstart
  obtain ⟨⟨hx, hz⟩, hheading⟩ := hstart
  intro x hmem
  simp only [scalars, List.mem_append, List.mem_cons, List.mem_flatMap] at hmem
  rcases hmem with ((rfl | hmem) | hmem) | ⟨t, ht, hmem⟩
  · exact hstep.1
  · simp only [Pose.scalars, List.mem_cons, List.not_mem_nil, or_false] at hmem
    rcases hmem with rfl | rfl | rfl
    · exact hx
    · exact hz
    · exact hheading
  · have hareaOpen : ∀ y ∈ level.area.unchecked, y.isFinite = true :=
      fun y hy => hopen y (List.mem_append_left _ hy)
    exact Area.isFinite_of_fault?_eq_none (p := level.start.position) harea hz hallows hareaOpen x hmem
  · rcases List.mem_append.mp hmem with hmem | hmem
    · exact hopen x (List.mem_append_right _ (List.mem_flatMap.mpr ⟨t, ht, hmem⟩))
    · obtain rfl := List.mem_singleton.mp hmem
      have ht := hradius t ht
      rw [Target.hasProperRadius, Bool.and_eq_true_iff] at ht
      exact ht.1

/-- The start of a level with its heading wrapped is as good as the start itself. -/
theorem validate_wrapped {level : Level} (h : level.validate = .ok ()) :
    ({ level with start := level.start.wrapped } : Level).validate = .ok () := by
  rw [validate_eq_ok_iff] at h ⊢
  obtain ⟨hobjective, hstep, hradius, hstart, hcompletion, harea, hturn, hallows⟩ := h
  simp only [Bool.and_eq_true_iff] at hstart
  refine ⟨hobjective, hstep, hradius, ?_, hcompletion, harea, hturn, hallows⟩
  simp only [Bool.and_eq_true_iff]
  exact ⟨hstart.1, Heading.isFinite_wrap hstart.2⟩

end Level

/-! ## What reading says about a level -/

/-- A field that may be missing was missing, or has been read. -/
theorem Json.optional_eq_some {α : Type} {default a : α} {ofJson? : Json → Option α}
    {slot : Option Json} (h : optional default ofJson? slot = some a) :
    a = default ∨ ∃ j, ofJson? j = some a := by
  cases slot with
  | none => exact .inl (Option.some.inj h).symm
  | some j => exact .inr ⟨j, h⟩

/-- Every item of a list that was read has been read. -/
theorem Json.exists_of_mem_list? {α : Type} {ofJson? : Json → Option α} {j : Json} {l : List α}
    (h : list? ofJson? j = some l) : ∀ a ∈ l, ∃ item, ofJson? item = some a := by
  cases j with
  | array items =>
    rw [list?] at h
    induction items generalizing l with
    | nil =>
      obtain rfl := Option.some.inj h
      simp
    | cons item items ih =>
      simp only [List.mapM_cons, Option.bind_eq_bind, Option.bind_eq_some_iff] at h
      obtain ⟨a, ha, rest, hrest, heq⟩ := h
      obtain rfl := Option.some.inj heq
      exact List.forall_mem_cons.mpr ⟨⟨item, ha⟩, ih hrest⟩
  | _ => cases h

/-- A count that was read fits 64 bits. -/
theorem Json.lt_of_index? {j : Json} {n : Nat} (h : j.index? = some n) : n < UInt64.size := by
  unfold index? natBelow? at h
  cases j with
  | number numeral =>
    simp only [Numeral.natBelow?] at h
    split at h
    · rename_i hfits
      obtain rfl := Option.some.inj h
      simp only [Bool.and_eq_true_iff, decide_eq_true_iff] at hfits
      exact hfits.2
    · cases h
  | _ => cases h

/-- A target that was read is not collected. -/
theorem Target.fresh_of_ofJson? {j : Json} {t : Target} (h : ofJson? j = some t) :
    t.fresh = t := by
  unfold ofJson? at h
  split at h
  · simp only [Option.bind_eq_bind, Option.bind_eq_some_iff] at h
    obtain ⟨name, -, position, -, radius, -, required, -, heq⟩ := h
    obtain rfl := Option.some.inj heq
    rfl
  · cases h

theorem Walkway.turnStage_lt_of_ofJson? {j : Json} {w : Walkway} (h : ofJson? j = some w) :
    w.turnStage < UInt64.size := by
  unfold ofJson? at h
  split at h
  · simp only [Option.bind_eq_bind, Option.bind_eq_some_iff] at h
    obtain ⟨_, -, _, -, _, -, _, -, turnStage, hturn, _, -, heq⟩ := h
    obtain rfl := Option.some.inj heq
    obtain ⟨stage, -, hindex⟩ := Option.bind_eq_some_iff.mp hturn
    exact Json.lt_of_index? hindex
  · cases h

/-- The counts of an area that was read fit 64 bits. -/
theorem Area.counts_lt_of_ofJson? {around : Nat} {j : Json} {area : Area}
    (h : ofJson? around j = some area) : ∀ n ∈ area.counts, n < UInt64.size := by
  unfold ofJson? at h
  split at h
  · split at h
    · split at h
      · simp only [Option.bind_eq_bind, Option.bind_eq_some_iff] at h
        obtain ⟨x, -, z, -, heq⟩ := h
        obtain rfl := Option.some.inj heq
        simp [counts]
      · cases h
    · obtain ⟨w, hw, rfl⟩ := Option.map_eq_some_iff.mp h
      intro n hn
      obtain rfl := List.mem_singleton.mp hn
      exact Walkway.turnStage_lt_of_ofJson? hw
    · cases h
  · cases h

namespace Level

/-- A level that has been read has no collected target, and its counts fit. -/
theorem fresh_of_ofJson? {j : Json} {level : Level} (h : ofJson? j = some level) :
    level.fresh = level ∧ ∀ n ∈ level.area.counts, n < UInt64.size := by
  unfold ofJson? at h
  split at h
  · simp only [Option.bind_eq_bind, Option.bind_eq_some_iff] at h
    obtain ⟨id, -, title, -, step, -, start, -, area, harea, targets, htargets, objective, -,
      completion, -, heq⟩ := h
    obtain rfl := Option.some.inj heq
    have hfresh : targets.map Target.fresh = targets := by
      rcases Json.optional_eq_some htargets with rfl | ⟨items, hitems⟩
      · rfl
      · refine (List.map_congr_left fun t ht => ?_).trans (List.map_id targets)
        obtain ⟨item, hitem⟩ := Json.exists_of_mem_list? hitems t ht
        exact Target.fresh_of_ofJson? hitem
    obtain ⟨value, -, hvalue⟩ := Option.bind_eq_some_iff.mp harea
    exact ⟨by simp only [fresh, hfresh], Area.counts_lt_of_ofJson? hvalue⟩
  · cases h

end Level

/-! ## Texts with an infinity -/

namespace Point

theorem ofJson?_toJson_eq_none {p : Point} {x : Scalar} (hx : x ∈ p.scalars)
    (h : x.isFinite = false) : ofJson? p.toJson = none := by
  have hnone := Json.scalar?_ofScalar_of_not_isFinite h
  simp only [scalars, List.mem_cons, List.not_mem_nil, or_false] at hx
  rcases hx with rfl | rfl
  · simp [ofJson?, toJson, hnone]
  · simp [ofJson?, toJson, hnone]

end Point

namespace Walkway

theorem ofJson?_toJson_eq_none {w : Walkway} {x : Scalar} (hx : x ∈ [w.columnX, w.tolerance])
    (h : x.isFinite = false) : ofJson? w.toJson = none := by
  have hslots : w.toJson.slots?
      ["row_z", "columns", "turn_column_x", "rows", "turn_stage", "epsilon"] =
      some (w.members.map fun m => some m.2) :=
    Json.slots?_object (show ["row_z", "columns", "turn_column_x", "rows", "turn_stage",
      "epsilon"].Nodup by decide)
  simp only [members, List.map_cons, List.map_nil] at hslots
  have hnone := Json.scalar?_ofScalar_of_not_isFinite h
  simp only [List.mem_cons, List.not_mem_nil, or_false] at hx
  rcases hx with rfl | rfl
  · simp [ofJson?, hslots, hnone]
  · simp [ofJson?, hslots, hnone]

end Walkway

namespace Area

theorem ofJson?_toJson_eq_none {area : Area} {x : Scalar} (hx : x ∈ area.unchecked)
    (h : x.isFinite = false) (around : Nat) : ofJson? around area.toJson = none := by
  cases area with
  | platform x z => cases hx
  | walkway w =>
    have hw := Walkway.ofJson?_toJson_eq_none hx h
    rw [Walkway.toJson] at hw
    rw [ofJson?, toJson, Json.tagged?_cons (by simp [Walkway.members])]
    simp [hw]

end Area

namespace Target

theorem ofJson?_toJson_eq_none {t : Target} {x : Scalar} (hx : x ∈ t.position.scalars)
    (h : x.isFinite = false) : ofJson? t.toJson = none := by
  have hslots : t.toJson.slots? ["name", "position", "radius", "required"] =
      some [some (.string t.name), some t.position.toJson, some (.ofScalar t.radius),
        some (.bool t.required)] :=
    Json.slots?_object (show ["name", "position", "radius", "required"].Nodup by decide)
  simp [ofJson?, hslots, Point.ofJson?_toJson_eq_none hx h]

end Target

namespace Level

theorem ofJson?_toJson_eq_none {level : Level} {x : Scalar} (hx : x ∈ level.unchecked)
    (h : x.isFinite = false) : ofJson? level.toJson = none := by
  have hslots : level.toJson.slots? ["id", "title", "step_distance", "start", "constraint", "targets",
      "objective", "completion"] =
      some [some (.string level.id), some (.string level.title), some (.ofScalar level.stepDistance),
        some level.start.toJson, some level.area.toJson,
        some (.array (level.targets.map Target.toJson)), some level.objective.toJson,
        some level.completion.toJson] :=
    Json.slots?_object (show ["id", "title", "step_distance", "start", "constraint", "targets",
      "objective", "completion"].Nodup by decide)
  rcases List.mem_append.mp hx with hx | hx
  · simp [ofJson?, hslots, Area.ofJson?_toJson_eq_none hx h]
  · obtain ⟨t, ht, hx⟩ := List.mem_flatMap.mp hx
    simp [ofJson?, hslots, Json.list?_eq_none ht (Target.ofJson?_toJson_eq_none hx h)]

/-- What is not finite and not checked keeps the text of a level from being read. -/
theorem ofText?_text_eq_none {level : Level} (hcounts : ∀ n ∈ level.area.counts, n < UInt64.size)
    {x : Scalar} (hx : x ∈ level.unchecked) (h : x.isFinite = false) : ofText? level.text = none := by
  rw [ofText?, Json.decode?, text, Json.read?_renderIndented (holdable_toJson hcounts le_rfl),
    Option.bind_some, ofJson?_toJson_eq_none hx h]

/-! ## Loading again -/

/-- A text that is read as a level that can be played is loaded as this level. -/
theorem ofText_of_ofText? {text : String} {level : Level} (hread : ofText? text = some level)
    (hvalid : level.validate = .ok ()) :
    ofText text = .ok { level with start := level.start.wrapped } :=
  ofText_eq_ok_iff.mpr ⟨level, hread, hvalid, rfl⟩

/-- A loaded level can be played, has no collected target, and its counts fit. -/
theorem validate_of_ofText {text : String} {level : Level} (h : ofText text = .ok level) :
    level.validate = .ok () ∧ level.fresh = level ∧ ∀ n ∈ level.area.counts, n < UInt64.size := by
  obtain ⟨raw, hread, hvalid, rfl⟩ := ofText_eq_ok_iff.mp h
  obtain ⟨j, -, hj⟩ := Option.bind_eq_some_iff.mp hread
  obtain ⟨hfresh, hcounts⟩ := fresh_of_ofJson? hj
  refine ⟨validate_wrapped hvalid, ?_, hcounts⟩
  exact congrArg (fun l : Level => { l with start := raw.start.wrapped }) hfresh

/-- **Loading again.** The text of a level that has been loaded is loaded as the same level with its
heading wrapped once more, if the unchecked scalars are finite. If one of them is not, the text cannot
be read. -/
theorem reload_of_ofText {text : String} {level : Level} (h : ofText text = .ok level) :
    ((∀ x ∈ level.unchecked, x.isFinite = true) →
      ofText level.text = .ok { level with start := level.start.wrapped }) ∧
    (∀ x ∈ level.unchecked, x.isFinite = false → ofText level.text = .error .unreadable) := by
  obtain ⟨hvalid, hfresh, hcounts⟩ := validate_of_ofText h
  refine ⟨fun hopen => ?_, fun x hx hinfinite => ?_⟩
  · have hagain := (standsFor (isFinite_of_validate hvalid hopen) hcounts).decode?_renderIndented
    rw [hfresh] at hagain
    exact ofText_of_ofText? hagain hvalid
  · rw [ofText, ofText?_text_eq_none hcounts hx hinfinite]

/-- The text of a walkway with a given tolerance. The target has no `required`, and lies as far away as
a scalar can say; the heading is more than a whole turn. -/
def pierText (tolerance : String) : List Char :=
  List.flatMap String.toList
    ["\x7b\"id\":\"pier\",\"title\":\"Pier\",", "\"step_distance\":1,\"start\":[0,0.0,7.5],",
     "\"constraint\":\x7b\"kind\":\"path\",", "\"row_z\":0.05,\"columns\":[-1,1],",
     "\"turn_column_x\":1e-45,\"rows\":[0,2],", "\"turn_stage\":0,\"epsilon\":", tolerance,
     "\x7d, \"targets\":[[\"buoy\",", "[-3.4028235e38,0.1],2]],", "\"objective\":[[\"forward\",1]]\x7d"]

/-- The level of that text. -/
def pier (tolerance : Scalar) : Level where
  id := "pier"
  title := "Pier"
  stepDistance := 1
  start := ⟨0, 0, 7.5⟩
  area := .walkway ⟨0.05, ⟨-1, 1⟩, 1e-45, ⟨0, 2⟩, 0, tolerance⟩
  targets := [⟨"buoy", ⟨-3.4028235e38, 0.1⟩, 2, true, false⟩]
  objective := ⟨[⟨.forward, 1⟩]⟩
  completion := .objective

theorem ofText_pierText {tolerance : Scalar} {numeral : String}
    (hread : (Json.readAll? (pierText numeral)).bind ofJson? = some (pier tolerance))
    (hfault : (pier tolerance).fault? = none) :
    ofText (String.ofList (pierText numeral)) =
      .ok { pier tolerance with start := (pier tolerance).start.wrapped } := by
  have hvalid : (pier tolerance).validate = .ok () := by rw [validate, hfault]
  refine ofText_of_ofText? ?_ hvalid
  rw [ofText?, Json.decode?, Json.read?, String.toList_ofList, hread]

theorem reload_of_ofText_pier :
    let level : Level := { pier 0.1 with start := (pier 0.1).start.wrapped }
    ofText (String.ofList (pierText "0.1")) = .ok level ∧
      ofText level.text = .ok { level with start := level.start.wrapped } := by
  intro level
  have hload : ofText (String.ofList (pierText "0.1")) = .ok level :=
    ofText_pierText (by decide +kernel) (by decide +kernel)
  have hfinite : ∀ x ∈ level.unchecked, x.isFinite = true := by decide +kernel
  clear_value level
  exact ⟨hload, (reload_of_ofText hload).1 hfinite⟩

/-- With a tolerance beyond the largest scalar, the level is loaded and its text is not. -/
theorem boundless_not_reloaded :
    let level : Level := { pier 1e39 with start := (pier 1e39).start.wrapped }
    ofText (String.ofList (pierText "1e39")) = .ok level ∧
      ofText level.text = .error .unreadable := by
  intro level
  have hload : ofText (String.ofList (pierText "1e39")) = .ok level :=
    ofText_pierText (by decide +kernel) (by decide +kernel)
  have hcounts : ∀ n ∈ level.area.counts, n < UInt64.size := by decide +kernel
  have hopen : (1e39 : Scalar) ∈ level.unchecked :=
    List.mem_append_left _ (List.mem_cons_of_mem _ (List.mem_singleton.mpr rfl))
  have hinfinite : (1e39 : Scalar).isFinite = false := by decide +kernel
  clear_value level
  refine ⟨hload, ?_⟩
  rw [ofText, ofText?_text_eq_none hcounts hopen hinfinite]

end Level

end Seahorse
