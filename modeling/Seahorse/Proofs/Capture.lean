import Seahorse.Proofs.Course

/-!
# Collecting along a way

Points are visited in turn, and every visit collects the targets in range that have not been collected
and reports their names. In the end a target is collected if it was so at first or if some point was in
range. It is reported by the first visit in range and by no other. Names may occur twice, so that the
targets of a report are told apart by their places in the list.
-/

namespace Seahorse

namespace Target

/-- The targets after visits at points in turn. -/
def visitAll (points : List Point) (ts : List Target) : List Target :=
  points.foldl (fun ts p => ts.map (visited p)) ts

/-- What the visits report, one list of names for each. -/
def reports : List Point → List Target → List (List String)
  | [], _ => []
  | p :: points, ts => captured p ts :: reports points (ts.map (visited p))

/-- The target after visits at points, whatever the other targets are. -/
def after (points : List Point) (t : Target) : Target :=
  { t with collected := t.collected || points.any t.inRange }

/-- Of the points, the one with this index is the first in range. -/
def MetFirstAt (t : Target) (points : List Point) (j : Nat) : Prop :=
  (∃ p, points[j]? = some p ∧ t.inRange p = true) ∧
    ∀ k < j, ∀ p, points[k]? = some p → t.inRange p = false

/-! ## The targets at the end -/

theorem after_visited (p : Point) (points : List Point) (t : Target) :
    (t.visited p).after points = t.after (p :: points) := by
  have hrange : (t.visited p).inRange = t.inRange := rfl
  simp only [after, hrange, List.any_cons, ← Bool.or_assoc]
  rfl

theorem visitAll_eq_map (points : List Point) (ts : List Target) :
    visitAll points ts = ts.map (after points) := by
  induction points generalizing ts with
  | nil =>
    have hnil : after [] = id := by
      funext t
      simp [after]
    rw [hnil, List.map_id]
    rfl
  | cons p points ih =>
    have hstep : visitAll (p :: points) ts = visitAll points (ts.map (visited p)) := rfl
    rw [hstep, ih, List.map_map]
    refine List.map_congr_left fun t _ => ?_
    exact after_visited p points t

theorem collected_after_iff {points : List Point} {t : Target} :
    (t.after points).collected = true ↔ t.collected = true ∨ ∃ p ∈ points, t.inRange p = true := by
  simp [after]

theorem allRequiredCollected_visitAll_iff {points : List Point} {ts : List Target} :
    allRequiredCollected (visitAll points ts) = true ↔
      ∀ t ∈ ts, t.required = true → t.collected = true ∨ ∃ p ∈ points, t.inRange p = true := by
  have hall : allRequiredCollected (visitAll points ts) = true ↔
      ∀ t ∈ ts, t.required = true → (t.after points).collected = true := by
    rw [visitAll_eq_map, allRequiredCollected, List.all_map, List.all_eq_true]
    refine forall₂_congr fun t _ => ?_
    show (!t.required || (t.after points).collected) = true ↔ _
    cases t.required <;> simp
  simp only [hall, collected_after_iff]

/-! ## The reports -/

theorem length_reports (points : List Point) (ts : List Target) :
    (reports points ts).length = points.length := by
  induction points generalizing ts with
  | nil => rfl
  | cons p points ih => rw [reports, List.length_cons, ih, List.length_cons]

/-- **Step.** A visit reports what it newly collects of the targets that the visits before it have
left. -/
theorem getElem?_reports (points : List Point) (ts : List Target) (j : Nat) :
    (reports points ts)[j]? = points[j]?.map fun p => captured p (visitAll (points.take j) ts) := by
  induction points generalizing ts j with
  | nil => rfl
  | cons p points ih =>
    cases j with
    | zero => rfl
    | succ j => exact ih (ts.map (visited p)) j

theorem captured_visitAll (p : Point) (points : List Point) (ts : List Target) :
    captured p (visitAll points ts) =
      (ts.filter fun t => !(t.after points).collected && t.inRange p).map (·.name) := by
  rw [captured, visitAll_eq_map, List.filter_map, List.map_map]
  rfl

/-- The first visit in range is the one that finds the target not yet collected. -/
theorem newlyCollected_iff {t : Target} {points : List Point} {j : Nat} {p : Point}
    (hp : points[j]? = some p) :
    (!(t.after (points.take j)).collected && t.inRange p) = true ↔
      t.collected = false ∧ t.MetFirstAt points j := by
  have hearlier : (∃ q ∈ points.take j, t.inRange q = true) ↔
      ∃ k < j, ∃ q, points[k]? = some q ∧ t.inRange q = true := by
    constructor
    · rintro ⟨q, hq, hrange⟩
      obtain ⟨k, hk⟩ := List.mem_iff_getElem?.mp hq
      rw [List.getElem?_take] at hk
      by_cases hlt : k < j
      · exact ⟨k, hlt, q, by rwa [if_pos hlt] at hk, hrange⟩
      · rw [if_neg hlt] at hk
        cases hk
    · rintro ⟨k, hlt, q, hk, hrange⟩
      refine ⟨q, List.mem_iff_getElem?.mpr ⟨k, ?_⟩, hrange⟩
      rw [List.getElem?_take, if_pos hlt, hk]
  have hcollected : (t.after (points.take j)).collected = true ↔
      t.collected = true ∨ ∃ k < j, ∃ q, points[k]? = some q ∧ t.inRange q = true := by
    rw [collected_after_iff, hearlier]
  rw [Bool.and_eq_true_iff, Bool.not_eq_true', ← Bool.not_eq_true, hcollected, MetFirstAt, hp]
  constructor
  · rintro ⟨hnew, hrange⟩
    rw [not_or] at hnew
    refine ⟨by simpa using hnew.1, ⟨p, rfl, hrange⟩, fun k hk q hq => ?_⟩
    by_contra hq'
    exact hnew.2 ⟨k, hk, q, hq, by simpa using hq'⟩
  · rintro ⟨hfirst, ⟨q, hq, hrange⟩, hbefore⟩
    obtain rfl := Option.some.inj hq
    refine ⟨?_, hrange⟩
    rintro (hcollected | ⟨k, hk, q, hq, hrange'⟩)
    · rw [hfirst] at hcollected
      cases hcollected
    · rw [hbefore k hk q hq] at hrange'
      cases hrange'

/-- The names of some targets of a list, by the places of the targets. -/
theorem exists_places (q : Target → Bool) (ts : List Target) :
    ∃ places : List Nat, places.Pairwise (· < ·) ∧
      (∀ i, i ∈ places ↔ ∃ t, ts[i]? = some t ∧ q t = true) ∧
      ((ts.filter q).map (·.name)).map some = places.map fun i => ts[i]?.map (·.name) := by
  let marked := ts.zipIdx.filter fun x => q x.1
  have hmem : ∀ x ∈ marked, ts[x.2]? = some x.1 := by
    intro x hx
    exact List.mem_zipIdx_iff_getElem?.mp (List.mem_filter.mp hx).1
  refine ⟨marked.map Prod.snd, ?_, fun i => ?_, ?_⟩
  · have hsorted : (ts.zipIdx.map Prod.snd).Pairwise (· < ·) := by
      rw [List.zipIdx_map_snd]
      exact List.pairwise_lt_range'
    exact hsorted.sublist (List.filter_sublist.map _)
  · constructor
    · intro hi
      obtain ⟨⟨t, k⟩, hx, rfl⟩ := List.mem_map.mp hi
      exact ⟨t, hmem _ hx, (List.mem_filter.mp hx).2⟩
    · rintro ⟨t, ht, hq⟩
      refine List.mem_map.mpr ⟨(t, i), List.mem_filter.mpr ⟨?_, hq⟩, rfl⟩
      exact List.mem_zipIdx_iff_getElem?.mpr ht
  · have hfilter : ts.filter q = marked.map Prod.fst := by
      conv_lhs => rw [← List.zipIdx_map_fst 0 ts]
      exact List.filter_map
    rw [hfilter]
    simp only [List.map_map]
    refine List.map_congr_left fun x hx => ?_
    simp [hmem x hx]

theorem existsUnique_metFirstAt {t : Target} {points : List Point}
    (h : ∃ p ∈ points, t.inRange p = true) : ∃! j, t.MetFirstAt points j := by
  have hex : ∃ (j : Nat) (p : Point), points[j]? = some p ∧ t.inRange p = true := by
    obtain ⟨p, hp, hrange⟩ := h
    obtain ⟨j, hj⟩ := List.mem_iff_getElem?.mp hp
    exact ⟨j, p, hj, hrange⟩
  refine ⟨Nat.find hex, ⟨Nat.find_spec hex, fun k hk p hp => ?_⟩, fun j hj => ?_⟩
  · have hmin := Nat.find_min hex hk
    by_contra hrange
    exact hmin ⟨p, hp, by simpa using hrange⟩
  · refine le_antisymm ?_ (Nat.find_min' hex hj.1)
    by_contra hlt
    obtain ⟨p, hp, hrange⟩ := Nat.find_spec hex
    rw [hj.2 _ (not_le.mp hlt) p hp] at hrange
    cases hrange

/-- **Collecting along a way.** For any targets and any points that are visited in turn: no target is
lost, moved or changed but for its mark, which is set at the end exactly if it was set at first or some
point was in range. Each visit reports, in the order of the list, exactly the targets without a mark at
first of which it is the first in range; there is one first visit if there is any. So neither the order
nor the repetition of points matters at the end, and once all required targets are collected they stay
so. -/
theorem capture_of_visits (ts : List Target) (points : List Point) :
    (visitAll points ts).length = ts.length ∧
    (∀ (i : Nat) (t : Target), ts[i]? = some t → ∃ t', (visitAll points ts)[i]? = some t' ∧
      t'.name = t.name ∧ t'.position = t.position ∧ t'.radius = t.radius ∧
      t'.required = t.required ∧
      (t'.collected = true ↔ t.collected = true ∨ ∃ p ∈ points, t.inRange p = true)) ∧
    (reports points ts).length = points.length ∧
    (∀ (j : Nat) (names : List String), (reports points ts)[j]? = some names →
      ∃ places : List Nat, places.Pairwise (· < ·) ∧
      (∀ i, i ∈ places ↔ ∃ t, ts[i]? = some t ∧ t.collected = false ∧ t.MetFirstAt points j) ∧
      names.map some = places.map fun i => ts[i]?.map (·.name)) ∧
    (∀ t ∈ ts, (∃ p ∈ points, t.inRange p = true) → ∃! j, t.MetFirstAt points j) ∧
    (∀ other, (∀ p, p ∈ other ↔ p ∈ points) → visitAll other ts = visitAll points ts) ∧
    (allRequiredCollected (visitAll points ts) = true ↔
      ∀ t ∈ ts, t.required = true → t.collected = true ∨ ∃ p ∈ points, t.inRange p = true) ∧
    (∀ more, allRequiredCollected (visitAll points ts) = true →
      allRequiredCollected (visitAll (points ++ more) ts) = true) := by
  refine ⟨by rw [visitAll_eq_map, List.length_map], fun i t ht => ?_, length_reports points ts,
    fun j names hj => ?_, fun t _ h => existsUnique_metFirstAt h, fun other hother => ?_,
    allRequiredCollected_visitAll_iff, fun more h => ?_⟩
  · refine ⟨t.after points, ?_, rfl, rfl, rfl, rfl, collected_after_iff⟩
    rw [visitAll_eq_map, List.getElem?_map, ht, Option.map_some]
  · rw [getElem?_reports] at hj
    obtain ⟨p, hp, rfl⟩ := Option.map_eq_some_iff.mp hj
    obtain ⟨places, hsorted, hmem, hnames⟩ :=
      exists_places (fun t => !(t.after (points.take j)).collected && t.inRange p) ts
    refine ⟨places, hsorted, fun i => ?_, by rw [captured_visitAll, hnames]⟩
    simp only [hmem, newlyCollected_iff hp]
  · rw [visitAll_eq_map, visitAll_eq_map]
    refine List.map_congr_left fun t _ => ?_
    have hany : other.any t.inRange = points.any t.inRange := by
      rw [Bool.eq_iff_iff, List.any_eq_true, List.any_eq_true]
      simp only [hother]
    rw [after, after, hany]
  · rw [allRequiredCollected_visitAll_iff] at h ⊢
    intro t ht hrequired
    rcases h t ht hrequired with hcollected | ⟨p, hp, hrange⟩
    · exact .inl hcollected
    · exact .inr ⟨p, List.mem_append_left _ hp, hrange⟩

/-- Two coins of one name within reach of each other, and a shell that has been collected. -/
def twinCoins : List Target :=
  [⟨"coin", ⟨0, 0⟩, 1, true, false⟩, ⟨"coin", ⟨0.5, 0⟩, 1, true, false⟩,
   ⟨"shell", ⟨0, 0⟩, 1, false, true⟩]

/-- The first point is nowhere and the second too far away; the third collects both coins. -/
theorem capture_of_visits_twinCoins :
    let points : List Point := [⟨Scalar.notANumber, 0⟩, ⟨9, 0⟩, ⟨0.25, 0⟩, ⟨0, 0⟩]
    reports points twinCoins = [[], [], ["coin", "coin"], []] ∧
    (∀ t ∈ twinCoins, ∃! j, t.MetFirstAt points j) ∧
    visitAll points.reverse twinCoins = visitAll points twinCoins ∧
    allRequiredCollected (visitAll points twinCoins) = true ∧
    allRequiredCollected (visitAll (points ++ [⟨9, 9⟩]) twinCoins) = true := by
  intro points
  have hreports : reports points twinCoins = [[], [], ["coin", "coin"], []] := by decide +kernel
  have hrange : ∀ t ∈ twinCoins, ∃ p ∈ points, t.inRange p = true := by decide +kernel
  have hall : allRequiredCollected (visitAll points twinCoins) = true := by decide +kernel
  clear_value points
  obtain ⟨-, -, -, -, honce, hsame, -, hstays⟩ := capture_of_visits twinCoins points
  exact ⟨hreports, fun t ht => honce t ht (hrange t ht), hsame _ fun p => List.mem_reverse, hall,
    hstays _ hall⟩

end Target

/-- The targets of a run are collected along the points that its commands lead through. -/
theorem Level.targetsAfter_eq_visitAll (level : Level) (cs : Program) :
    level.targetsAfter cs = Target.visitAll (level.visits cs) (level.targets.map Target.fresh) := by
  rw [Target.visitAll_eq_map, List.map_map]
  rfl

end Seahorse
