import Mathlib.Data.List.Basic
import Mathlib.Data.Nat.Count
import Seahorse.Objective.Matcher

/-!
# What a matcher recognises

An objective is given in groups; written out, it is one sequence of commands. A matcher walks along
this sequence as long as the commands it is given, waits left out, agree with it. `Follows` says
where it then stands: inside the sequence, behind its end, or off it since the first command that
differs. The furthest stage reached is in every case the number of groups inside the longest common
prefix of what was given and what is asked for.
-/

namespace Seahorse

/-! ## Common prefixes -/

section CommonPrefix

variable {α : Type} [DecidableEq α]

/-- The longest list that both lists start with. -/
def commonPrefix : List α → List α → List α
  | x :: xs, y :: ys => if x = y then x :: commonPrefix xs ys else []
  | _, _ => []

/-- A list is a prefix of the common prefix exactly when it is one of both lists, so no common
prefix is longer. -/
theorem isPrefix_commonPrefix_iff {p xs ys : List α} :
    p <+: commonPrefix xs ys ↔ p <+: xs ∧ p <+: ys := by
  induction xs generalizing p ys with
  | nil => cases ys <;> simp +contextual [commonPrefix, List.prefix_nil]
  | cons x xs ih =>
    cases ys with
    | nil => simp +contextual [commonPrefix, List.prefix_nil]
    | cons y ys =>
      cases p with
      | nil => simp
      | cons z p =>
        by_cases hxy : x = y
        · subst hxy
          simp only [commonPrefix, if_true, List.cons_prefix_cons, ih]
          tauto
        · simp only [commonPrefix, if_neg hxy, List.prefix_nil, List.cons_prefix_cons]
          constructor
          · intro h
            cases h
          · rintro ⟨⟨rfl, _⟩, hzy, _⟩
            exact absurd hzy hxy

theorem commonPrefix_append (p xs ys : List α) :
    commonPrefix (p ++ xs) (p ++ ys) = p ++ commonPrefix xs ys := by
  induction p with
  | nil => rfl
  | cons x p ih => simp [commonPrefix, ih]

/-- A list has all of itself in common with a longer one. -/
theorem commonPrefix_self_append (p ys : List α) : commonPrefix p (p ++ ys) = p := by
  simpa [commonPrefix] using commonPrefix_append p [] ys

theorem commonPrefix_append_self (p xs : List α) : commonPrefix (p ++ xs) p = p := by
  have h := commonPrefix_append p xs []
  cases xs <;> simpa [commonPrefix] using h

end CommonPrefix

namespace Objective

/-! ## The sequence asked for -/

/-- The commands asked for, one by one. -/
def commands (o : Objective) : List Command :=
  o.groups.flatMap fun g => List.replicate g.count.toNat g.command

/-- How many commands the first `n` groups ask for. -/
def before (o : Objective) (n : Nat) : Nat :=
  (commands ⟨o.groups.take n⟩).length

/-- How many groups lie wholly inside the first `n` commands asked for. -/
def groupsWithin (o : Objective) (n : Nat) : Nat :=
  Nat.count (fun i => o.before (i + 1) ≤ n) o.length

/-- The commands that count for an objective. -/
def counted (cs : List Command) : List Command :=
  cs.filter (· ≠ .wait)

@[simp]
theorem counted_concat_wait (cs : List Command) : counted (cs ++ [.wait]) = counted cs := by
  simp [counted]

theorem counted_concat {c : Command} (hc : c ≠ .wait) (cs : List Command) :
    counted (cs ++ [c]) = counted cs ++ [c] := by
  simp [counted, hc]

/-- How many groups lie wholly inside the part of the sequence that the commands perform. -/
def groupsDone (o : Objective) (cs : List Command) : Nat :=
  o.groupsWithin (commonPrefix (counted cs) o.commands).length

/-- Whether the commands perform the whole sequence, perhaps with more behind it. -/
def isPerformed (o : Objective) (cs : List Command) : Bool :=
  o.commands.isPrefixOf (counted cs)

theorem isPerformed_concat {o : Objective} {cs : List Command} (c : Command)
    (h : o.isPerformed cs = true) : o.isPerformed (cs ++ [c]) = true := by
  unfold isPerformed at h ⊢
  rw [List.isPrefixOf_iff_prefix] at h ⊢
  by_cases hc : c = .wait
  · subst hc
    rwa [counted_concat_wait]
  · rw [counted_concat hc]
    exact h.trans (List.prefix_append _ _)

/-- An objective that can be played: there is something to do, and every group asks for some command
that counts. -/
structure IsPlayable (o : Objective) : Prop where
  nonempty : o.groups ≠ []
  counts : ∀ g ∈ o.groups, 0 < g.count.toNat
  noWait : ∀ g ∈ o.groups, g.command ≠ .wait

theorem fault?_eq_none_iff {o : Objective} : o.fault? = none ↔ o.IsPlayable := by
  have hzero : ∀ g : Group, (g.count == 0) = false ↔ 0 < g.count.toNat := by
    intro g
    rw [beq_eq_false_iff_ne, Nat.pos_iff_ne_zero, ne_eq, ne_eq, ← UInt32.toNat_inj]
    rfl
  unfold fault?
  by_cases hempty : o.groups = []
  · simp only [hempty, List.isEmpty_nil, if_true, reduceCtorEq, false_iff]
    exact fun h => h.nonempty hempty
  · rw [if_neg (by simpa using hempty)]
    cases hfind : o.groups.findIdx? (·.count == 0) with
    | some index =>
      obtain ⟨hlt, hcount, _⟩ := List.findIdx?_eq_some_iff_getElem.mp hfind
      simp only [reduceCtorEq, false_iff]
      intro h
      rw [(hzero _).mpr (h.counts _ (List.getElem_mem hlt))] at hcount
      cases hcount
    | none =>
      have hpos : ∀ g ∈ o.groups, 0 < g.count.toNat := fun g hg =>
        (hzero g).mp (List.findIdx?_eq_none_iff.mp hfind g hg)
      simp only [ite_eq_right_iff, reduceCtorEq, imp_false, List.any_eq_true, not_exists, not_and,
        beq_iff_eq]
      exact ⟨fun h => ⟨hempty, hpos, h⟩, fun h => h.noWait⟩

/-! ## Positions in the sequence -/

section Position

variable {o : Objective} {s n : Nat} {g : Group}

theorem before_succ (h : o.groups[s]? = some g) :
    o.before (s + 1) = o.before s + g.count.toNat := by
  simp [before, commands, List.take_add_one, h]

theorem before_mono {m n : Nat} (h : m ≤ n) : o.before m ≤ o.before n := by
  have hstep : ∀ n, o.before n ≤ o.before (n + 1) := by
    intro n
    simp [before, commands, List.take_add_one]
  exact monotone_nat_of_le_succ hstep h

theorem before_length : o.before o.length = o.commands.length := by
  rw [before, length, List.take_length]

theorem commands_eq (h : o.groups[s]? = some g) :
    ∃ front back, o.commands = front ++ (List.replicate g.count.toNat g.command ++ back) ∧
      front.length = o.before s := by
  obtain ⟨hlt, rfl⟩ := List.getElem?_eq_some_iff.mp h
  refine ⟨commands ⟨o.groups.take s⟩, commands ⟨o.groups.drop (s + 1)⟩, ?_, rfl⟩
  have hcut : o.groups = o.groups.take s ++ o.groups[s] :: o.groups.drop (s + 1) := by
    rw [← List.drop_eq_getElem_cons hlt, List.take_append_drop]
  calc o.commands
      = commands ⟨o.groups.take s ++ o.groups[s] :: o.groups.drop (s + 1)⟩ := by rw [← hcut]
    _ = _ := by simp only [commands, List.flatMap_append, List.flatMap_cons]

/-- Inside a group, the command asked for next is the command of the group. -/
theorem commands_getElem? (h : o.groups[s]? = some g) (hn : n < g.count.toNat) :
    o.commands[o.before s + n]? = some g.command := by
  obtain ⟨front, back, heq, hlen⟩ := commands_eq h
  rw [heq, ← hlen, List.getElem?_append_right (by omega), Nat.add_sub_cancel_left,
    List.getElem?_append_left (by simpa using hn), List.getElem?_replicate, if_pos hn]

/-- At a position inside the group at index `s`, and at the end for `s` the number of groups,
exactly `s` groups lie behind. -/
theorem groupsWithin_eq (hs : s ≤ o.length) (hle : o.before s ≤ n)
    (hlt : s < o.length → n < o.before (s + 1)) : o.groupsWithin n = s := by
  obtain ⟨t, ht⟩ := Nat.exists_eq_add_of_le hs
  rw [groupsWithin, ht, Nat.count_add, Nat.count_of_forall, Nat.count_of_forall_not, Nat.add_zero]
  · intro i hi hle'
    have hmono : o.before (s + 1) ≤ o.before (s + i + 1) := before_mono (by omega)
    have := hlt (by omega)
    omega
  · intro i hi
    exact le_trans (before_mono (by omega)) hle

end Position

end Objective

namespace Matcher

/-! ## Where a matcher stands -/

/-- The matcher after several commands. -/
def feedAll (o : Objective) (m : Matcher) (cs : List Command) : Matcher :=
  cs.foldl (fun m c => (m.feed o c).2) m

theorem feedAll_concat (o : Objective) (m : Matcher) (cs : List Command) (c : Command) :
    feedAll o m (cs ++ [c]) = ((feedAll o m cs).feed o c).2 := by
  simp [feedAll]

theorem isSatisfied_iff_le {o : Objective} {m : Matcher} :
    m.isSatisfied o ↔ o.length ≤ m.stage := by
  simp [isSatisfied]

/-- A matcher inside the group `g`, with `rest` of the sequence before it: what it was given is the
sequence up to here. -/
structure Inside (o : Objective) (w : List Command) (m : Matcher) (g : Group)
    (rest : List Command) : Prop where
  sequence : o.commands = w ++ rest
  group : o.groups[m.stage]? = some g
  count_lt : m.countInStage.toNat < g.count.toNat
  position : w.length = o.before m.stage + m.countInStage.toNat
  onTrack : m.derailed = false
  peak : m.peakStage = m.stage

/-- Where a matcher stands that was given the commands `w`, none of them a wait. -/
inductive Follows (o : Objective) (w : List Command) (m : Matcher) : Prop where
  /-- Inside a group. -/
  | inside (g : Group) (rest : List Command) (h : Inside o w m g rest)
  /-- Behind the end: the whole sequence was given, and perhaps more. -/
  | done (more : List Command) (hseq : w = o.commands ++ more)
      (hm : m = ⟨o.length, 0, false, o.length⟩)
  /-- Off the sequence: after `p` there came `c` where `d` was asked for. -/
  | off (p more rest : List Command) (c d : Command) (hw : w = p ++ c :: more)
      (hseq : o.commands = p ++ d :: rest) (hne : c ≠ d)
      (hm : m = ⟨0, 0, true, o.groupsWithin p.length⟩)

section Feed

variable {o : Objective} {m : Matcher} {c : Command} {g : Group}

@[simp]
theorem feed_wait (o : Objective) (m : Matcher) : m.feed o .wait = (.unchanged, m) := by
  simp [feed]

theorem feed_of_derailed (h : m.derailed = true) : m.feed o c = (.unchanged, m) := by
  simp [feed, h]

theorem feed_of_satisfied (h : o.groups[m.stage]? = none) : m.feed o c = (.unchanged, m) := by
  simp [feed, h]

theorem feed_match (hc : c ≠ .wait) (hm : m.derailed = false) (hg : o.groups[m.stage]? = some g)
    (heq : c = g.command) :
    m.feed o c = (if (m.count g).isSatisfied o then .satisfied else .advanced, m.count g) := by
  subst heq
  simp [feed, hc, hm, hg]

theorem feed_mismatch (hc : c ≠ .wait) (hm : m.derailed = false) (hg : o.groups[m.stage]? = some g)
    (hne : c ≠ g.command) : m.feed o c = (.reset, m.derail) := by
  simp [feed, hc, hm, hg, hne]

/-- Inside a group the count does not overflow, not even for the largest count that can be asked for. A
group that asks for nothing is finished by its first command all the same. -/
theorem toNat_countInStage_succ (h : m.countInStage.toNat < max 1 g.count.toNat) :
    (m.countInStage + 1).toNat = m.countInStage.toNat + 1 := by
  have := g.count.toNat_lt
  rw [UInt32.toNat_add, UInt32.toNat_one]
  omega

/-- So a group is finished by the command that makes its count full. -/
theorem count_eq (h : m.countInStage.toNat < max 1 g.count.toNat) :
    m.count g = if g.count.toNat ≤ m.countInStage.toNat + 1 then
        { m with
          stage := m.stage + 1
          countInStage := 0
          peakStage := max m.peakStage (m.stage + 1) }
      else { m with countInStage := m.countInStage + 1 } := by
  unfold count
  simp only [UInt32.le_iff_toNat_le, toNat_countInStage_succ h]

end Feed

section Follows

variable {o : Objective} {w rest : List Command} {m : Matcher} {g : Group}

theorem Inside.stage_lt (h : Inside o w m g rest) : m.stage < o.length :=
  (List.getElem?_eq_some_iff.mp h.group).1

theorem Inside.rest_eq (h : Inside o w m g rest) : ∃ rest', rest = g.command :: rest' := by
  have hnext := Objective.commands_getElem? h.group h.count_lt
  rw [h.sequence, ← h.position, List.getElem?_append_right le_rfl, Nat.sub_self] at hnext
  cases rest with
  | nil => cases hnext
  | cons d rest' =>
    obtain rfl : d = g.command := by simpa using hnext
    exact ⟨rest', rfl⟩

theorem Inside.groupsWithin_eq (h : Inside o w m g rest) : o.groupsWithin w.length = m.stage := by
  have hpos := h.position
  have hcount := h.count_lt
  refine Objective.groupsWithin_eq h.stage_lt.le (by omega) fun _ => ?_
  rw [Objective.before_succ h.group]
  omega

/-- Giving the command that is asked for moves a matcher one command along the sequence. -/
theorem Inside.count (ho : o.IsPlayable) (h : Inside o w m g (g.command :: rest)) :
    Follows o (w ++ [g.command]) (m.count g) := by
  have hseq : o.commands = (w ++ [g.command]) ++ rest := by simp [h.sequence]
  have hlen : (w ++ [g.command]).length = o.before m.stage + m.countInStage.toNat + 1 := by
    rw [List.length_append, List.length_singleton, h.position]
  have hcount := h.count_lt
  rw [count_eq (lt_max_of_lt_right hcount)]
  split_ifs with hfull
  · have hpos : (w ++ [g.command]).length = o.before (m.stage + 1) := by
      rw [Objective.before_succ h.group]
      omega
    have hpeak : max m.peakStage (m.stage + 1) = m.stage + 1 := by
      rw [h.peak]
      omega
    cases hnext : o.groups[m.stage + 1]? with
    | some g' =>
      -- the next group has just been entered
      have hmem : g' ∈ o.groups := List.mem_of_getElem? hnext
      exact .inside g' rest ⟨hseq, hnext, ho.counts g' hmem, by simpa using hpos, h.onTrack, hpeak⟩
    | none =>
      -- that was the last group, so nothing of the sequence is left
      have hlast : m.stage + 1 = o.length := by
        have hlt := h.stage_lt
        have hge := List.getElem?_eq_none_iff.mp hnext
        unfold Objective.length at hlt ⊢
        omega
      have hrest : rest = [] := by
        have hall := congrArg List.length hseq
        rw [List.length_append, hpos, hlast, Objective.before_length] at hall
        exact List.length_eq_zero_iff.mp (by omega)
      refine .done [] (by rw [hseq, hrest]; simp) ?_
      rw [hpeak, hlast, h.onTrack]
  · have hadd := toNat_countInStage_succ (lt_max_of_lt_right hcount)
    refine .inside g rest ⟨hseq, h.group, ?_, ?_, h.onTrack, h.peak⟩
    · show (m.countInStage + 1).toNat < g.count.toNat
      omega
    · show (w ++ [g.command]).length = o.before m.stage + (m.countInStage + 1).toNat
      omega

theorem follows_start (ho : o.IsPlayable) : Follows o [] start := by
  obtain ⟨g, gs, hgs⟩ := List.exists_cons_of_ne_nil ho.nonempty
  have hg : o.groups[0]? = some g := by simp [hgs]
  have hcount : 0 < g.count.toNat := ho.counts g (by simp [hgs])
  exact .inside g o.commands ⟨rfl, hg, hcount, rfl, rfl, rfl⟩

/-- **Step.** A command that counts keeps the matcher in step with what was given. -/
theorem Follows.feed (ho : o.IsPlayable) (h : Follows o w m) {c : Command} (hc : c ≠ .wait) :
    Follows o (w ++ [c]) (m.feed o c).2 := by
  cases h with
  | inside g rest h =>
    obtain ⟨rest', rfl⟩ := h.rest_eq
    by_cases heq : c = g.command
    · rw [feed_match hc h.onTrack h.group heq, heq]
      exact h.count ho
    · rw [feed_mismatch hc h.onTrack h.group heq]
      refine .off w [] rest' c g.command rfl h.sequence heq ?_
      rw [h.groupsWithin_eq, ← h.peak]
      rfl
  | done more hseq hm =>
    subst hm
    rw [feed_of_satisfied (List.getElem?_eq_none_iff.mpr le_rfl)]
    exact .done (more ++ [c]) (by rw [hseq, List.append_assoc]) rfl
  | off p more rest b d hw hseq hne hm =>
    subst hm
    rw [feed_of_derailed rfl]
    have hmore : w ++ [c] = p ++ b :: (more ++ [c]) := by
      rw [hw, List.append_assoc, List.cons_append]
    exact .off p (more ++ [c]) rest b d hmore hseq hne rfl

/-- **Run.** Whatever commands a matcher is given, it stands where the ones that count have led. -/
theorem follows_feedAll (ho : o.IsPlayable) (cs : List Command) :
    Follows o (Objective.counted cs) (feedAll o start cs) := by
  induction cs using List.reverseRecOn with
  | nil => exact follows_start ho
  | append_singleton cs c ih =>
    rw [feedAll_concat]
    by_cases hc : c = .wait
    · subst hc
      rw [feed_wait, Objective.counted_concat_wait]
      exact ih
    · rw [Objective.counted_concat hc]
      exact ih.feed ho hc

/-- The furthest stage counts the groups given in a row from the start, whatever came after. -/
theorem Follows.peakStage_eq (h : Follows o w m) :
    m.peakStage = o.groupsWithin (commonPrefix w o.commands).length := by
  cases h with
  | inside g rest h =>
    rw [h.sequence, commonPrefix_self_append, h.groupsWithin_eq, h.peak]
  | done more hseq hm =>
    rw [hseq, commonPrefix_append_self, hm, ← Objective.before_length]
    exact (Objective.groupsWithin_eq le_rfl le_rfl fun hlt => absurd hlt (lt_irrefl _)).symm
  | off p more rest c d hw hseq hne hm =>
    have hcommon : commonPrefix (p ++ c :: more) (p ++ d :: rest) = p := by
      rw [commonPrefix_append, commonPrefix, if_neg hne, List.append_nil]
    rw [hw, hseq, hcommon, hm]

/-- A matcher is satisfied exactly when the whole sequence was given. -/
theorem Follows.isSatisfied_iff (ho : o.IsPlayable) (h : Follows o w m) :
    m.isSatisfied o ↔ o.commands <+: w := by
  cases h with
  | inside g rest h =>
    obtain ⟨rest', rfl⟩ := h.rest_eq
    have hnot : ¬ o.commands <+: w := by
      intro hp
      have hle := hp.length_le
      rw [h.sequence, List.length_append, List.length_cons] at hle
      omega
    rw [isSatisfied_iff_le]
    exact iff_of_false (Nat.not_le.mpr h.stage_lt) hnot
  | done more hseq hm =>
    simp [isSatisfied_iff_le, hseq, hm]
  | off p more rest c d hw hseq hne hm =>
    have hpos : 0 < o.length := List.length_pos_iff.mpr ho.nonempty
    have hnot : ¬ o.commands <+: w := by
      intro hp
      rw [hw, hseq, List.prefix_append_right_inj, List.cons_prefix_cons] at hp
      exact hne hp.1.symm
    rw [isSatisfied_iff_le, hm]
    exact iff_of_false (Nat.not_le.mpr hpos) hnot

theorem Follows.length_le_peakStage (ho : o.IsPlayable) (h : Follows o w m) (hs : m.isSatisfied o) :
    o.length ≤ m.peakStage := by
  rw [isSatisfied_iff_le] at hs
  cases h with
  | inside g rest h => rw [h.peak]; exact hs
  | done more hseq hm => rw [hm]
  | off p more rest c d hw hseq hne hm =>
    rw [hm] at hs
    exact absurd hs (Nat.not_le.mpr (List.length_pos_iff.mpr ho.nonempty))

theorem peakStage_feedAll (ho : o.IsPlayable) (cs : List Command) :
    (feedAll o start cs).peakStage = o.groupsDone cs :=
  (follows_feedAll ho cs).peakStage_eq

theorem isSatisfied_feedAll (ho : o.IsPlayable) (cs : List Command) :
    (feedAll o start cs).isSatisfied o = o.isPerformed cs := by
  rw [Bool.eq_iff_iff, (follows_feedAll ho cs).isSatisfied_iff ho, Objective.isPerformed,
    List.isPrefixOf_iff_prefix]

end Follows

/-! ## One command -/

/-- All that one command can do: nothing, count for the current group, or break the sequence. -/
theorem feed_cases (o : Objective) (m : Matcher) (c : Command) :
    m.feed o c = (.unchanged, m) ∨
    ∃ g, o.groups[m.stage]? = some g ∧
      (m.feed o c = (if (m.count g).isSatisfied o then .satisfied else .advanced, m.count g) ∨
        m.feed o c = (.reset, m.derail)) := by
  by_cases hwait : c = .wait
  · left
    rw [hwait, feed_wait]
  cases hd : m.derailed with
  | true => exact .inl (feed_of_derailed hd)
  | false =>
    cases hg : o.groups[m.stage]? with
    | none => exact .inl (feed_of_satisfied hg)
    | some g =>
      by_cases heq : c = g.command
      · exact .inr ⟨g, rfl, .inl (feed_match hwait hd hg heq)⟩
      · exact .inr ⟨g, rfl, .inr (feed_mismatch hwait hd hg heq)⟩

/-- The furthest stage is never lost, not even by breaking the sequence. -/
theorem peakStage_le_feed (o : Objective) (m : Matcher) (c : Command) :
    m.peakStage ≤ (m.feed o c).2.peakStage := by
  rcases feed_cases o m c with h | ⟨g, -, h | h⟩ <;> rw [h]
  · show m.peakStage ≤ (m.count g).peakStage
    unfold count
    split_ifs
    · exact le_max_left _ _
    · exact le_rfl
  · exact le_rfl

/-- A command is reported to satisfy the objective exactly when it is satisfied from then on and was
not before. -/
theorem feed_fst_eq_satisfied_iff (o : Objective) (m : Matcher) (c : Command) :
    (m.feed o c).1 = .satisfied ↔ (m.feed o c).2.isSatisfied o ∧ ¬ m.isSatisfied o := by
  rcases feed_cases o m c with h | ⟨g, hg, h⟩
  · simp [h]
  · have hlt : m.stage < o.length := (List.getElem?_eq_some_iff.mp hg).1
    have hopen : ¬ m.isSatisfied o := by
      rw [isSatisfied_iff_le]
      omega
    rcases h with h | h
    · by_cases hs : (m.count g).isSatisfied o <;> simp [h, hs, hopen]
    · have hback : ¬ m.derail.isSatisfied o := by
        rw [isSatisfied_iff_le]
        exact Nat.not_le.mpr (Nat.zero_lt_of_lt hlt)
      simp [h, hback]

end Matcher

end Seahorse
