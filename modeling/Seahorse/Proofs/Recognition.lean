import Seahorse.Proofs.Matching

/-!
# The sequences a matcher recognises

A matcher counts groups, but what it recognises has nothing to do with groups: it is satisfied when
the commands it was given, waits left out, start with the sequence asked for, and derailed when the
two lists part. Its stage and its count are a place in the sequence, and of everything it reports in
a run, at most one report is that the sequence is complete or that it is broken.
-/

namespace Seahorse

namespace Objective

/-- A place in the sequence asked for, behind its first `n` commands: `k` commands into the group at
index `s`, or at the end, where `s` is the number of groups. -/
structure IsPlace (o : Objective) (n s k : Nat) : Prop where
  stage_le : s ≤ o.length
  position : o.before s + k = n
  inside : s < o.length → n < o.before (s + 1)

/-- A place is given by the position: its stage counts the groups that end there or earlier. -/
theorem IsPlace.stage_eq {o : Objective} {n s k : Nat} (h : o.IsPlace n s k) :
    s = o.groupsWithin n := by
  have hle : o.before s ≤ n := by
    have := h.position
    omega
  exact (groupsWithin_eq h.stage_le hle h.inside).symm

theorem IsPlace.unique {o : Objective} {n s k s' k' : Nat} (h : o.IsPlace n s k)
    (h' : o.IsPlace n s' k') : s' = s ∧ k' = k := by
  obtain rfl : s' = s := h'.stage_eq.trans h.stage_eq.symm
  have hpos := h.position
  have hpos' := h'.position
  omega

end Objective

namespace Matcher

section Follows

variable {o : Objective} {w : List Command} {m : Matcher}

/-- A matcher is derailed exactly when what it was given and what is asked for part somewhere. -/
theorem Follows.derailed_iff (h : Follows o w m) :
    m.derailed = true ↔ ¬ w <+: o.commands ∧ ¬ o.commands <+: w := by
  cases h with
  | inside g rest h =>
    have hp : w <+: o.commands := h.sequence ▸ List.prefix_append w rest
    simp [h.onTrack, hp]
  | done more hseq hm =>
    have hp : o.commands <+: w := hseq ▸ List.prefix_append o.commands more
    simp [hm, hp]
  | off p more rest c d hw hseq hne hm =>
    have hforth : ¬ w <+: o.commands := by
      rw [hw, hseq, List.prefix_append_right_inj, List.cons_prefix_cons]
      exact fun hp => hne hp.1
    have hback : ¬ o.commands <+: w := by
      rw [hw, hseq, List.prefix_append_right_inj, List.cons_prefix_cons]
      exact fun hp => hne hp.1.symm
    simp [hm, hforth, hback]

/-- A matcher that is not derailed stands behind the common prefix. -/
theorem Follows.isPlace (h : Follows o w m) (htrack : m.derailed = false) :
    o.IsPlace (commonPrefix w o.commands).length m.stage m.countInStage.toNat := by
  cases h with
  | inside g rest h =>
    have hcommon : commonPrefix w o.commands = w := by
      rw [h.sequence, commonPrefix_self_append]
    have hcount := h.count_lt
    rw [hcommon, h.position]
    refine ⟨h.stage_lt.le, rfl, fun _ => ?_⟩
    rw [Objective.before_succ h.group]
    omega
  | done more hseq hm =>
    have hcommon : commonPrefix w o.commands = o.commands := by
      rw [hseq, commonPrefix_append_self]
    rw [hcommon, hm]
    refine ⟨le_rfl, ?_, fun hlt => absurd hlt (lt_irrefl _)⟩
    exact Objective.before_length
  | off p more rest c d hw hseq hne hm =>
    rw [hm] at htrack
    cases htrack

theorem Follows.eq_zero_of_derailed (h : Follows o w m) (hoff : m.derailed = true) :
    m.stage = 0 ∧ m.countInStage = 0 := by
  cases h with
  | inside g rest h =>
    rw [h.onTrack] at hoff
    cases hoff
  | done more hseq hm =>
    rw [hm] at hoff
    cases hoff
  | off p more rest c d hw hseq hne hm =>
    rw [hm]
    exact ⟨rfl, rfl⟩

end Follows

/-! ## What a matcher reports -/

/-- What each of several commands does, in turn. -/
def reports (o : Objective) (m : Matcher) : List Command → List Progress
  | [] => []
  | c :: cs => (m.feed o c).1 :: reports o (m.feed o c).2 cs

theorem getElem?_reports (o : Objective) (m : Matcher) (cs : List Command) (i : Nat) :
    (reports o m cs)[i]? = cs[i]?.map fun c => ((feedAll o m (cs.take i)).feed o c).1 := by
  induction cs generalizing m i with
  | nil => rfl
  | cons c cs ih =>
    cases i with
    | zero => rfl
    | succ i => exact ih (m.feed o c).2 i

theorem reports_concat (o : Objective) (m : Matcher) (cs : List Command) (c : Command) :
    reports o m (cs ++ [c]) = reports o m cs ++ [((feedAll o m cs).feed o c).1] := by
  induction cs generalizing m with
  | nil => rfl
  | cons b cs ih => exact congrArg ((m.feed o b).1 :: ·) (ih (m.feed o b).2)

/-- A command is reported to break the sequence exactly when it derails the matcher. -/
theorem feed_fst_eq_reset_iff (o : Objective) (m : Matcher) (c : Command) :
    (m.feed o c).1 = .reset ↔ (m.feed o c).2.derailed = true ∧ m.derailed = false := by
  cases hoff : m.derailed with
  | true => simp [feed_of_derailed hoff]
  | false =>
    rcases feed_cases o m c with h | ⟨g, -, h | h⟩
    · simp [h, hoff]
    · have hcount : (m.count g).derailed = false := by
        unfold count
        split_ifs <;> exact hoff
      rw [h]
      simp only [hcount, Bool.false_eq_true, false_and, iff_false]
      split_ifs <;> simp
    · simp [h, derail]

/-- A matcher never goes back from satisfied or from derailed. -/
theorem feed_keeps (o : Objective) {m : Matcher} (c : Command)
    (h : m.isSatisfied o = true ∨ m.derailed = true) : m.feed o c = (.unchanged, m) := by
  rcases h with h | h
  · rw [isSatisfied_iff_le] at h
    exact feed_of_satisfied (List.getElem?_eq_none_iff.mpr h)
  · exact feed_of_derailed h

/-- Satisfaction is reported once if the matcher is satisfied in the end, and otherwise never. -/
theorem count_satisfied_reports (o : Objective) (hne : o.groups ≠ []) (cs : List Command) :
    (reports o start cs).count .satisfied = if (feedAll o start cs).isSatisfied o then 1 else 0 := by
  induction cs using List.reverseRecOn with
  | nil =>
    have hopen : ¬ start.isSatisfied o := by
      rw [isSatisfied_iff_le]
      exact Nat.not_le.mpr (List.length_pos_iff.mpr hne)
    simp [reports, feedAll, hopen]
  | append_singleton cs c ih =>
    rw [reports_concat, feedAll_concat, List.count_append, ih, List.count_singleton]
    have hreport := feed_fst_eq_satisfied_iff o (feedAll o start cs) c
    by_cases hs : (feedAll o start cs).isSatisfied o
    · have hkeep := feed_keeps o c (.inl hs)
      simp [hkeep, hs]
    · by_cases hs' : ((feedAll o start cs).feed o c).2.isSatisfied o <;> simp [hs, hs', hreport]

/-- The break of the sequence is reported once if the matcher is derailed in the end, and otherwise
never. -/
theorem count_reset_reports (o : Objective) (cs : List Command) :
    (reports o start cs).count .reset = if (feedAll o start cs).derailed then 1 else 0 := by
  induction cs using List.reverseRecOn with
  | nil => rfl
  | append_singleton cs c ih =>
    rw [reports_concat, feedAll_concat, List.count_append, ih, List.count_singleton]
    have hreport := feed_fst_eq_reset_iff o (feedAll o start cs) c
    cases hoff : (feedAll o start cs).derailed with
    | true =>
      have hkeep := feed_keeps o c (.inr hoff)
      simp [hkeep, hoff]
    | false => cases hoff' : ((feedAll o start cs).feed o c).2.derailed <;> simp [hoff, hoff', hreport]

/-- Satisfaction is reported by the command that makes what counts the sequence asked for. -/
theorem reports_eq_satisfied_iff {o : Objective} (ho : o.IsPlayable) (cs : List Command) (i : Nat) :
    (reports o start cs)[i]? = some .satisfied ↔
      ∃ c, cs[i]? = some c ∧ c ≠ .wait ∧ Objective.counted (cs.take (i + 1)) = o.commands := by
  rw [getElem?_reports]
  cases hc : cs[i]? with
  | none => simp
  | some c =>
    have htake : cs.take (i + 1) = cs.take i ++ [c] := by simp [List.take_add_one, hc]
    have hbefore := (follows_feedAll ho (cs.take i)).isSatisfied_iff ho
    have hafter := (follows_feedAll ho (cs.take i ++ [c])).isSatisfied_iff ho
    rw [feedAll_concat] at hafter
    simp only [Option.map_some, Option.some.injEq, feed_fst_eq_satisfied_iff, hbefore, hafter, htake,
      exists_eq_left']
    by_cases hwait : c = .wait
    · subst hwait
      simp [Objective.counted_concat_wait]
    · rw [Objective.counted_concat hwait, List.prefix_concat_iff]
      constructor
      · rintro ⟨heq | hp, hnot⟩
        · exact ⟨hwait, heq.symm⟩
        · exact absurd hp hnot
      · rintro ⟨-, heq⟩
        refine ⟨.inl heq.symm, fun hp => ?_⟩
        have hle := hp.length_le
        rw [← heq, List.length_append, List.length_singleton] at hle
        omega

/-- **A matcher recognises exactly the sequence asked for.** Whatever commands are given to it, let
`w` be those that count and `n` the length of the longest common prefix of `w` and the sequence. The
matcher is satisfied if and only if `w` starts with the sequence, and derailed if and only if neither
list is a prefix of the other. On track, its stage and count are the only place behind `n` commands
of the sequence; derailed, both are zero. Its furthest stage is the number of groups within these `n`
commands in any case. Satisfaction is reported by the command that completes the sequence and by no
other, a break at most once, and never both. -/
theorem recognition_of_feedAll {o : Objective} (ho : o.fault? = none) (cs : List Command) :
    let w := Objective.counted cs
    let n := (commonPrefix w o.commands).length
    let m := feedAll o start cs
    (m.isSatisfied o = true ↔ o.commands <+: w) ∧
    (m.derailed = true ↔ ¬ w <+: o.commands ∧ ¬ o.commands <+: w) ∧
    (m.derailed = false →
      m.stage = o.groupsWithin n ∧ m.countInStage.toNat = n - o.before m.stage ∧
        o.IsPlace n m.stage m.countInStage.toNat ∧
        ∀ s k, o.IsPlace n s k → s = m.stage ∧ k = m.countInStage.toNat) ∧
    (m.derailed = true → m.stage = 0 ∧ m.countInStage = 0) ∧
    m.peakStage = o.groupsWithin n ∧
    (∀ i, (reports o start cs)[i]? = some .satisfied ↔
      ∃ c, cs[i]? = some c ∧ c ≠ .wait ∧ Objective.counted (cs.take (i + 1)) = o.commands) ∧
    (reports o start cs).count .satisfied ≤ 1 ∧ (reports o start cs).count .reset ≤ 1 ∧
    ¬ (.satisfied ∈ reports o start cs ∧ .reset ∈ reports o start cs) := by
  intro w n m
  have hplay := Objective.fault?_eq_none_iff.mp ho
  have hfollows : Follows o w m := follows_feedAll hplay cs
  have hsatisfied := hfollows.isSatisfied_iff hplay
  have hderailed := hfollows.derailed_iff
  have hcount : (reports o start cs).count .satisfied = if m.isSatisfied o then 1 else 0 :=
    count_satisfied_reports o hplay.nonempty cs
  have hcount' : (reports o start cs).count .reset = if m.derailed then 1 else 0 :=
    count_reset_reports o cs
  refine ⟨hsatisfied, hderailed, fun htrack => ?_, hfollows.eq_zero_of_derailed,
    hfollows.peakStage_eq, reports_eq_satisfied_iff hplay cs, ?_, ?_, ?_⟩
  · have hplace := hfollows.isPlace htrack
    have hposition := hplace.position
    exact ⟨hplace.stage_eq, by omega, hplace, fun s k h => hplace.unique h⟩
  · rw [hcount]
    split_ifs <;> omega
  · rw [hcount']
    split_ifs <;> omega
  · -- one report means satisfied, the other derailed, and a matcher is never both
    rintro ⟨hs, hr⟩
    rw [← List.count_pos_iff, hcount] at hs
    rw [← List.count_pos_iff, hcount'] at hr
    have hsat : m.isSatisfied o = true := by
      by_contra hnot
      simp [hnot] at hs
    have hoff : m.derailed = true := by
      by_contra hnot
      simp [hnot] at hr
    exact (hderailed.mp hoff).2 (hsatisfied.mp hsat)

/-- Two groups of the same command in a row: the place between them shows in the stage alone. The
command behind the third stroke breaks the sequence, with two groups behind it. -/
theorem recognition_of_feedAll_adjacentGroups :
    let o : Objective := ⟨[⟨.forward, 2⟩, ⟨.forward, 1⟩, ⟨.turnLeft, 1⟩]⟩
    let cs : List Command := [.forward, .wait, .forward, .forward, .wait, .backward, .turnLeft]
    o.fault? = none ∧ (feedAll o start cs).derailed = true ∧
      (feedAll o start (cs.take 3)).stage = 1 ∧ (feedAll o start cs).peakStage = 2 ∧
      (reports o start cs).count .reset ≤ 1 ∧ .satisfied ∉ reports o start cs := by
  intro o cs
  have ho : o.fault? = none := by decide
  obtain ⟨-, hderailed, -, -, hpeak, -, -, hreset, hboth⟩ := recognition_of_feedAll ho cs
  obtain ⟨-, hderailed', hplace, -⟩ := recognition_of_feedAll ho (cs.take 3)
  have htrack : (feedAll o start (cs.take 3)).derailed = false := by
    rw [Bool.eq_false_iff, ne_eq, hderailed']
    decide
  refine ⟨ho, hderailed.mpr (by decide), ?_, ?_, hreset, fun hs => hboth ⟨hs, by decide⟩⟩
  · exact (hplace htrack).1.trans (by decide)
  · exact hpeak.trans (by decide)

end Matcher

end Seahorse
