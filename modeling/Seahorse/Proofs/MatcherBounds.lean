import Seahorse.Proofs.Recognition

/-!
# The bounds of a matcher

A matcher follows any objective, also one that no level can have: without groups, with groups that ask
for nothing, with groups that ask for waiting. Such an objective is not a sequence of commands to be
recognised, but the matcher keeps within its bounds all the same. Its stage is the index of a group or
the number of groups, its count has not reached what the group asks for, and so there is always room
for one more.
-/

namespace Seahorse

namespace Matcher

/-- What can be done to a matcher. -/
inductive Op where
  | feed (c : Command)
  | reset
  deriving DecidableEq

/-- The matcher after an operation. -/
def perform (o : Objective) (m : Matcher) : Op → Matcher
  | .feed c => (m.feed o c).2
  | .reset => start

/-- The matcher after several operations. -/
def performAll (o : Objective) (m : Matcher) (ops : List Op) : Matcher :=
  ops.foldl (perform o) m

theorem performAll_cons (o : Objective) (m : Matcher) (op : Op) (ops : List Op) :
    m.performAll o (op :: ops) = (m.perform o op).performAll o ops := rfl

/-- The bounds of a matcher. A group that asks for nothing counts like one that asks for one command:
the command that finishes it must be given. -/
structure Within (o : Objective) (m : Matcher) : Prop where
  stage_le_peakStage : m.stage ≤ m.peakStage
  peakStage_le : m.peakStage ≤ o.length
  count_lt : ∀ g, o.groups[m.stage]? = some g → m.countInStage.toNat < max 1 g.count.toNat
  count_eq_zero : m.stage = o.length → m.countInStage = 0
  eq_zero_of_derailed : m.derailed = true → m.stage = 0 ∧ m.countInStage = 0

section Within

variable {o : Objective} {m : Matcher} {g : Group} {c : Command}

theorem within_start (o : Objective) : start.Within o where
  stage_le_peakStage := le_rfl
  peakStage_le := Nat.zero_le _
  count_lt _ _ := lt_max_of_lt_left Nat.zero_lt_one
  count_eq_zero _ := rfl
  eq_zero_of_derailed h := absurd h Bool.false_ne_true

theorem Within.stage_le (h : m.Within o) : m.stage ≤ o.length :=
  h.stage_le_peakStage.trans h.peakStage_le

theorem Within.count (h : m.Within o) (hg : o.groups[m.stage]? = some g) (hm : m.derailed = false) :
    (m.count g).Within o := by
  have hlt : m.stage < o.length := (List.getElem?_eq_some_iff.mp hg).1
  have hcount := h.count_lt g hg
  rw [count_eq hcount]
  split_ifs with hfull
  · -- the next group, or the end, with a count of zero
    exact {
      stage_le_peakStage := le_max_right _ _
      peakStage_le := max_le h.peakStage_le hlt
      count_lt := fun _ _ => lt_max_of_lt_left Nat.zero_lt_one
      count_eq_zero := fun _ => rfl
      eq_zero_of_derailed := fun hoff => absurd (hm.symm.trans hoff) Bool.false_ne_true }
  · refine ⟨h.stage_le_peakStage, h.peakStage_le, fun g' hg' => ?_, fun hend => ?_, fun hoff => ?_⟩
    · obtain rfl : g = g' := Option.some.inj (hg.symm.trans hg')
      show (m.countInStage + 1).toNat < max 1 g.count.toNat
      rw [toNat_countInStage_succ hcount]
      omega
    · exact absurd hend hlt.ne
    · exact absurd (hm.symm.trans hoff) Bool.false_ne_true

theorem Within.derail (h : m.Within o) : m.derail.Within o where
  stage_le_peakStage := Nat.zero_le _
  peakStage_le := h.peakStage_le
  count_lt _ _ := lt_max_of_lt_left Nat.zero_lt_one
  count_eq_zero _ := rfl
  eq_zero_of_derailed _ := ⟨rfl, rfl⟩

/-- **Step.** An operation keeps a matcher within its bounds. -/
theorem Within.perform (h : m.Within o) (op : Op) : (m.perform o op).Within o := by
  cases op with
  | reset => exact within_start o
  | feed c =>
    show (m.feed o c).2.Within o
    cases hm : m.derailed with
    | true =>
      rw [feed_of_derailed hm]
      exact h
    | false =>
      rcases feed_cases o m c with hfeed | ⟨g, hg, hfeed | hfeed⟩ <;> rw [hfeed]
      · exact h
      · exact h.count hg hm
      · exact h.derail

/-- **Run.** Whatever is done to a matcher, it is within its bounds. -/
theorem within_performAll (o : Objective) (ops : List Op) : (start.performAll o ops).Within o := by
  induction ops using List.reverseRecOn with
  | nil => exact within_start o
  | append_singleton ops op ih =>
    rw [performAll, List.foldl_append]
    exact ih.perform op

/-- What a command that counts does to a matcher at the group `g`, in numbers without bound. -/
structure FeedsAt (o : Objective) (m : Matcher) (g : Group) (c : Command) : Prop where
  breaks : c ≠ g.command → m.feed o c = (.reset, ⟨0, 0, true, m.peakStage⟩)
  counts : c = g.command → m.countInStage.toNat + 1 < g.count.toNat →
    m.feed o c = (.advanced, { m with countInStage := m.countInStage + 1 })
  finishes : c = g.command → g.count.toNat ≤ m.countInStage.toNat + 1 →
    m.feed o c = (if m.stage + 1 = o.length then .satisfied else .advanced,
      ⟨m.stage + 1, 0, false, max m.peakStage (m.stage + 1)⟩)

theorem Within.feedsAt (h : m.Within o) (hg : o.groups[m.stage]? = some g) (hc : c ≠ .wait)
    (hm : m.derailed = false) : FeedsAt o m g c := by
  have hlt : m.stage < o.length := (List.getElem?_eq_some_iff.mp hg).1
  have hcount := h.count_lt g hg
  refine ⟨feed_mismatch hc hm hg, fun heq hmore => ?_, fun heq hfull => ?_⟩
  · have hopen : ¬ o.length ≤ m.stage := Nat.not_le.mpr hlt
    rw [feed_match hc hm hg heq, count_eq hcount, if_neg (Nat.not_le.mpr hmore)]
    simp [isSatisfied, hopen]
  · have hlast : o.length ≤ m.stage + 1 ↔ m.stage + 1 = o.length := by omega
    rw [feed_match hc hm hg heq, count_eq hcount, if_pos hfull]
    simp [isSatisfied, hlast, hm]

end Within

theorem performAll_eq_self (o : Objective) {m : Matcher}
    (h : m.isSatisfied o = true ∨ m.derailed = true) {ops : List Op} (hops : .reset ∉ ops) :
    m.performAll o ops = m := by
  induction ops with
  | nil => rfl
  | cons op ops ih =>
    rw [List.mem_cons, not_or] at hops
    cases op with
    | reset => exact absurd rfl hops.1
    | feed c =>
      have hkeep : m.perform o (.feed c) = m := congrArg Prod.snd (feed_keeps o c h)
      rw [performAll_cons, hkeep]
      exact ih hops.2

/-- **A matcher keeps within its bounds.** On any objective, whatever commands a matcher is given and
however often it is reset in between: its stage is the index of a group or their number. At a group its
count is less than what the group asks for, or zero if it asks for nothing; at the end the count is
zero. The furthest stage lies between the stage and the number of groups, and no command lowers it. A
derailed matcher has gone back to the start of the first group. So a matcher that is not satisfied
finds its group, and counts one more command without overflow. A matcher that is satisfied or derailed
stays as it is until it is reset. -/
theorem bounds_of_operations (o : Objective) (ops : List Op) :
    let m := start.performAll o ops
    m.stage ≤ o.length ∧
    (∀ g, o.groups[m.stage]? = some g → m.countInStage.toNat < max 1 g.count.toNat) ∧
    (m.stage = o.length → m.countInStage = 0) ∧
    m.stage ≤ m.peakStage ∧ m.peakStage ≤ o.length ∧
    (m.derailed = true → m.stage = 0 ∧ m.countInStage = 0) ∧
    (∀ c, m.peakStage ≤ (m.feed o c).2.peakStage) ∧
    (m.isSatisfied o = false →
      ∃ g, o.groups[m.stage]? = some g ∧
        (m.countInStage + 1).toNat = m.countInStage.toNat + 1 ∧
        ∀ c, c ≠ .wait → m.derailed = false → FeedsAt o m g c) ∧
    (m.isSatisfied o = true ∨ m.derailed = true →
      (∀ c, m.feed o c = (.unchanged, m)) ∧
      ∀ more, .reset ∉ more → start.performAll o (ops ++ more) = m) := by
  intro m
  have h : m.Within o := within_performAll o ops
  refine ⟨h.stage_le, h.count_lt, h.count_eq_zero, h.stage_le_peakStage, h.peakStage_le,
    h.eq_zero_of_derailed, peakStage_le_feed o m, fun hopen => ?_, fun hsettled => ?_⟩
  · have hlt : m.stage < o.length := by
      rwa [← Bool.not_eq_true, isSatisfied_iff_le, Nat.not_le] at hopen
    have hg := List.getElem?_eq_getElem hlt
    exact ⟨_, hg, toNat_countInStage_succ (h.count_lt _ hg), fun c hc hm => h.feedsAt hg hc hm⟩
  · refine ⟨fun c => feed_keeps o c hsettled, fun more hmore => ?_⟩
    rw [performAll, List.foldl_append]
    exact performAll_eq_self o hsettled hmore

/-- Within a group, a matcher counts the commands of the group one by one. -/
theorem performAll_replicate {o : Objective} {m : Matcher} {g : Group} (h : m.Within o)
    (hg : o.groups[m.stage]? = some g) (hm : m.derailed = false) (hc : g.command ≠ .wait) {n : Nat}
    (hn : m.countInStage.toNat + n < g.count.toNat) :
    ∃ k, m.performAll o (List.replicate n (.feed g.command)) = { m with countInStage := k } ∧
      k.toNat = m.countInStage.toNat + n := by
  induction n generalizing m with
  | zero => exact ⟨m.countInStage, rfl, rfl⟩
  | succ n ih =>
    have hfeed : m.perform o (.feed g.command) = { m with countInStage := m.countInStage + 1 } :=
      congrArg Prod.snd ((h.feedsAt hg hc hm).counts rfl (by omega))
    have hsucc : (m.perform o (.feed g.command)).countInStage.toNat = m.countInStage.toNat + 1 := by
      rw [hfeed]
      exact toNat_countInStage_succ (h.count_lt g hg)
    obtain ⟨k, hk, hcount⟩ := ih (h.perform (.feed g.command)) (by rw [hfeed, hg]) (by rw [hfeed, hm])
      (by omega)
    refine ⟨k, ?_, by omega⟩
    rw [List.replicate_succ, performAll_cons, hk, hfeed]

/-- An objective that no level can have, with the largest count there is. One command before that count
is full, the matcher still counts. -/
theorem bounds_of_operations_largestCount :
    let o : Objective := ⟨[⟨.forward, 0⟩, ⟨.turnLeft, 4294967295⟩, ⟨.wait, 1⟩]⟩
    let ops : List Op := .feed .forward :: List.replicate 4294967294 (.feed .turnLeft)
    let m := start.performAll o ops
    m.countInStage.toNat = 4294967294 ∧ (m.countInStage + 1).toNat = 4294967295 ∧
      m.feed o .turnLeft = (.advanced, ⟨2, 0, false, 2⟩) := by
  have hroom : (0 : UInt32).toNat + 4294967294 < (4294967295 : UInt32).toNat := by decide
  -- the number is kept abstract, or the list would be written out
  generalize hn : 4294967294 = n at hroom ⊢
  intro o ops m
  have hfirst : start.perform o (.feed .forward) = ⟨1, 0, false, 1⟩ := by decide
  have hwithin : Within o ⟨1, 0, false, 1⟩ := hfirst ▸ (within_start o).perform (.feed .forward)
  obtain ⟨k, hk, hcount⟩ :=
    performAll_replicate (g := ⟨.turnLeft, 4294967295⟩) hwithin rfl rfl (by decide) hroom
  rw [UInt32.toNat_zero, Nat.zero_add] at hcount
  rw [← hfirst, ← performAll_cons] at hk
  obtain ⟨-, -, -, -, -, -, -, hopen, -⟩ := bounds_of_operations o ops
  simp only [m, ops, hk] at hopen ⊢
  obtain ⟨g, hg, hsucc, hfeeds⟩ := hopen rfl
  obtain rfl : ⟨.turnLeft, 4294967295⟩ = g := Option.some.inj hg
  refine ⟨hcount, by omega, ?_⟩
  exact (hfeeds .turnLeft (by decide) rfl).finishes rfl (by rw [hcount, ← hn]; decide)

end Matcher

end Seahorse
