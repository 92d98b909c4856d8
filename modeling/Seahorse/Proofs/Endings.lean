import Seahorse.Proofs.Outcomes

/-!
# Where a run ends

A program that is executed splits in three: the commands after which the run goes on, the command
that ends it, and the commands that are never reached. Whether the run goes on after a command
depends on what was given so far and on whether there is more, not on what that is. So a program
with more commands behind it is executed like the program itself, up to the point where that one is
blocked, has solved the level or runs out.
-/

namespace Seahorse

namespace Outcome

/-- What an outcome says, without its details. -/
inductive Kind where
  /-- There are commands left. -/
  | continued
  /-- The run was stopped. -/
  | aborted
  /-- The level is solved. -/
  | completed
  /-- The program ran out. -/
  | exhausted
  deriving DecidableEq

/-- The kind of an outcome. -/
def kind : Outcome → Kind
  | .continued _ => .continued
  | .aborted .. => .aborted
  | .completed .. => .completed
  | .exhausted _ => .exhausted

/-- Why the run was stopped, if it was. -/
def reason? : Outcome → Option Violation
  | .aborted reason _ => some reason
  | _ => none

end Outcome

theorem Objective.isPerformed_append {o : Objective} {cs : List Command} (ds : List Command)
    (h : o.isPerformed cs = true) : o.isPerformed (cs ++ ds) = true := by
  induction ds using List.reverseRecOn with
  | nil => rwa [List.append_nil]
  | append_singleton ds d ih =>
    rw [← List.append_assoc]
    exact isPerformed_concat d ih

theorem eq_take_append_cons {α : Type} {xs : List α} {i : Nat} (hi : i < xs.length) :
    xs = xs.take i ++ xs[i] :: xs.drop (i + 1) := by
  rw [← List.drop_eq_getElem_cons hi, List.take_append_drop]

/-- A list with one more element at the end is cut either at that element or before it. -/
theorem concat_eq_append_cons {α : Type} {xs a b : List α} {x c : α}
    (h : xs ++ [x] = a ++ c :: b) :
    b = [] ∧ xs = a ∧ x = c ∨ ∃ b', b = b' ++ [x] ∧ xs = a ++ c :: b' := by
  rcases List.eq_nil_or_concat b with rfl | ⟨b', y, rfl⟩
  · left
    obtain ⟨hxs, hx⟩ := List.append_inj' h rfl
    exact ⟨rfl, hxs, by simpa using hx⟩
  · right
    have hfront : xs ++ [x] = (a ++ c :: b') ++ [y] := by simpa using h
    obtain ⟨hxs, hx⟩ := List.append_inj' hfront rfl
    obtain rfl : x = y := by simpa using hx
    exact ⟨b', List.concat_eq_append, hxs⟩

namespace Level

/-! ## One command behind others -/

/-- Whether a command behind others changes the position and leads off the legal area. -/
def blocks (level : Level) (before : Program) (c : Command) : Bool :=
  c.isStep && !level.area.allows (level.poseAfter (before ++ [c])).position
    (level.objective.groupsDone before)

/-- Whether commands solve the level, as the whole program or as the first part of it. -/
def isSolved (level : Level) (cs : Program) (whole : Bool) : Bool :=
  level.completion.isMet (level.objective.isPerformed cs)
    (level.targets.all fun t => !t.required || level.reaches cs t) whole

section Split

variable (level : Level) (a : Program) (c : Command) (b : Program)

theorem take_split : (a ++ c :: b).take (a.length + 1) = a ++ [c] := by
  rw [List.take_length_add_append, List.take_succ_cons, List.take_zero]

theorem isLast_split : decide (a.length + 1 = (a ++ c :: b).length) = b.isEmpty := by
  cases b <;> simp

theorem isIllegal_split : level.isIllegal (a ++ c :: b) a.length = level.blocks a c := by
  have hc : (a ++ c :: b)[a.length]? = some c := by simp
  unfold isIllegal blocks
  rw [hc, take_split, List.take_left]

theorem isMet_split : level.isMet (a ++ c :: b) a.length = level.isSolved (a ++ [c]) b.isEmpty := by
  unfold isMet isSolved
  rw [take_split, isLast_split]

theorem ends_split : level.ends (a ++ c :: b) a.length =
    (level.blocks a c || level.isSolved (a ++ [c]) b.isEmpty || b.isEmpty) := by
  rw [ends, isIllegal_split, isMet_split, isLast_split]

theorem ends_split_of_more (d : Command) (e : Program) :
    level.ends (a ++ c :: (b ++ d :: e)) a.length =
      (level.blocks a c || level.isSolved (a ++ [c]) false) := by
  have hmore : (b ++ d :: e).isEmpty = false := by simp
  rw [ends_split, hmore, Bool.or_false]

theorem ending_split : level.ending (a ++ c :: b) a.length =
    if level.blocks a c then .aborted level.area.violation (level.poseAfter a)
    else if level.isSolved (a ++ [c]) b.isEmpty then
      .completed (level.poseAfter (a ++ [c]))
        ((level.targets.filter (level.reaches (a ++ [c]))).map (·.name))
    else .exhausted (level.poseAfter (a ++ [c])) := by
  rw [ending, isIllegal_split, isMet_split, take_split, List.take_left]

/-- Only the rule that waits for the whole program looks at whether there is more. -/
theorem isSolved_of_ne (h : level.completion ≠ .objective) (whole whole' : Bool) :
    level.isSolved a whole = level.isSolved a whole' := by
  unfold isSolved Completion.isMet
  cases hrule : level.completion with
  | objective => exact absurd hrule h
  | objectiveAndTargets => rfl
  | targetsOnly => rfl

theorem isSolved_false (h : level.isSolved a true = false) : level.isSolved a false = false := by
  by_cases hrule : level.completion = .objective
  · rw [isSolved, hrule]
    exact Bool.and_false _
  · rw [level.isSolved_of_ne a hrule false true, h]

theorem isSolved_objective (h : level.completion = .objective) (whole : Bool) :
    level.isSolved a whole = (level.objective.isPerformed a && whole) := by
  unfold isSolved
  rw [h]
  rfl

end Split

/-! ## Where a program ends -/

/-- None of the commands ends a run that has more commands behind it. -/
def GoesOn (level : Level) (cs : Program) : Prop :=
  ∀ a c b, cs = a ++ c :: b → level.blocks a c = false ∧ level.isSolved (a ++ [c]) false = false

/-- The program goes on through `a`, ends with `c`, and never comes to `b`. -/
structure EndsAt (level : Level) (program a : Program) (c : Command) (b : Program) : Prop where
  split : program = a ++ c :: b
  goesOn : level.GoesOn a
  ends : level.blocks a c = true ∨ level.isSolved (a ++ [c]) b.isEmpty = true ∨ b = []

/-- The commands taken by a run that goes on through `a` and ends with `c`. -/
def takenAt (level : Level) (a : Program) (c : Command) : Program :=
  if level.blocks a c then a else a ++ [c]

/-- What it takes for a run that goes on through `a` and ends with `c` to have an outcome of a
kind. -/
def EndsAs (level : Level) (a : Program) (c : Command) (b : Program) : Outcome.Kind → Prop
  | .continued => False
  | .aborted => level.blocks a c = true
  | .completed => level.blocks a c = false ∧ level.isSolved (a ++ [c]) b.isEmpty = true
  | .exhausted =>
    level.blocks a c = false ∧ level.isSolved (a ++ [c]) b.isEmpty = false ∧ b = []

/-- The outcomes of commands that a run goes on through. -/
def passing (level : Level) (cs : Program) : List Outcome :=
  (List.range cs.length).map fun i => .continued (level.poseAfter (cs.take (i + 1)))

section EndsAt

variable {level : Level} {program a b p q : Program} {c : Command}

theorem goesOn_concat (h : level.GoesOn a) (hfree : level.blocks a c = false)
    (hopen : level.isSolved (a ++ [c]) false = false) : level.GoesOn (a ++ [c]) := by
  intro x d y hsplit
  rcases concat_eq_append_cons hsplit with ⟨-, rfl, rfl⟩ | ⟨y, -, rfl⟩
  · exact ⟨hfree, hopen⟩
  · exact h x d y rfl

theorem GoesOn.ends_eq_false (h : level.GoesOn a) {i : Nat} (hi : i < a.length) :
    level.ends (a ++ c :: b) i = false := by
  have hcut : a = a.take i ++ a[i] :: a.drop (i + 1) := eq_take_append_cons hi
  obtain ⟨hfree, hopen⟩ := h _ _ _ hcut
  have hlen : (a.take i).length = i := List.length_take_of_le hi.le
  have hwhole : a ++ c :: b = a.take i ++ a[i] :: (a.drop (i + 1) ++ c :: b) := by
    rw [← List.cons_append, ← List.append_assoc, ← hcut]
  have hends := ends_split_of_more level (a.take i) a[i] (a.drop (i + 1)) c b
  rw [hlen] at hends
  rw [hwhole, hends, hfree, hopen]
  rfl

/-- Every program that is not empty ends somewhere. -/
theorem exists_endsAt (level : Level) (hne : program ≠ []) :
    ∃ a c b, level.EndsAt program a c b := by
  obtain ⟨k, hlt, hk⟩ := Session.exists_isLeast_ends level hne
  have hcut : program = program.take k ++ program[k] :: program.drop (k + 1) :=
    eq_take_append_cons hlt
  have hlen : (program.take k).length = k := List.length_take_of_le hlt.le
  refine ⟨program.take k, program[k], program.drop (k + 1), hcut, ?_, ?_⟩
  · intro x d y hsplit
    have hx : x.length < k := by
      have := congrArg List.length hsplit
      rw [hlen, List.length_append, List.length_cons] at this
      omega
    have hgo := Session.ends_eq_false hk hx
    rw [hcut, hsplit, List.append_assoc, List.cons_append, ends_split_of_more] at hgo
    exact Bool.or_eq_false_iff.mp hgo
  · have hend : level.ends program k = true := hk.1
    have hends := ends_split level (program.take k) program[k] (program.drop (k + 1))
    rw [← hcut, hlen, hend] at hends
    simpa [or_assoc] using hends.symm

theorem EndsAt.isLeast (h : level.EndsAt program a c b) :
    IsLeast {i | level.ends program i = true} a.length := by
  obtain ⟨rfl, hgo, hends⟩ := h
  refine ⟨?_, fun i hi => ?_⟩
  · show level.ends _ _ = true
    rw [ends_split]
    simpa [or_assoc] using hends
  · by_contra hlt
    have hi : level.ends (a ++ c :: b) i = true := hi
    rw [hgo.ends_eq_false (Nat.not_le.mp hlt)] at hi
    cases hi

theorem EndsAt.kind_ending (h : level.EndsAt program a c b) :
    (level.ending program a.length).kind =
      if level.blocks a c then .aborted
      else if level.isSolved (a ++ [c]) b.isEmpty then .completed
      else .exhausted := by
  rw [h.split, ending_split]
  split_ifs <;> rfl

/-- The outcome at the end tells how the run came to it. -/
theorem EndsAt.endsAs (h : level.EndsAt program a c b) {kind : Outcome.Kind}
    (hkind : (level.ending program a.length).kind = kind) : level.EndsAs a c b kind := by
  rw [← hkind, h.kind_ending]
  cases hb : level.blocks a c with
  | true => exact hb
  | false =>
    cases hs : level.isSolved (a ++ [c]) b.isEmpty with
    | true => exact ⟨hb, hs⟩
    | false =>
      refine ⟨hb, hs, ?_⟩
      rcases h.ends with hblocked | hsolved | hnone
      · rw [hb] at hblocked
        cases hblocked
      · rw [hs] at hsolved
        cases hsolved
      · exact hnone

theorem EndsAt.kind_ne_continued (h : level.EndsAt program a c b) :
    (level.ending program a.length).kind ≠ .continued :=
  fun hkind => h.endsAs hkind

/-- The pose at the end is that of the commands taken: a blocked command is not. -/
theorem EndsAt.pose_ending (h : level.EndsAt program a c b) :
    (level.ending program a.length).pose = level.poseAfter (level.takenAt a c) := by
  rw [h.split, ending_split, takenAt]
  split_ifs <;> rfl

theorem EndsAt.reason_ending (h : level.EndsAt program a c b) :
    (level.ending program a.length).reason? =
      if level.blocks a c then some level.area.violation else none := by
  rw [h.split, ending_split]
  split_ifs <;> rfl

theorem EndsAt.length_lt (h : level.EndsAt program a c b) : a.length < program.length := by
  rw [h.split, List.length_append, List.length_cons]
  omega

theorem EndsAt.ne_nil (h : level.EndsAt program a c b) : program ≠ [] := by
  rw [h.split]
  exact List.append_ne_nil_of_right_ne_nil _ (List.cons_ne_nil _ _)

/-- What ends a program ends it with more commands behind, too, if it does not rest on there being
none. -/
theorem EndsAt.append (h : level.EndsAt p a c b)
    (hends : level.blocks a c = true ∨ level.isSolved (a ++ [c]) (b ++ q).isEmpty = true) :
    level.EndsAt (p ++ q) a c (b ++ q) := by
  refine ⟨?_, h.goesOn, ?_⟩
  · rw [h.split, List.append_assoc, List.cons_append]
  · rcases hends with hblocked | hsolved
    · exact .inl hblocked
    · exact .inr (.inl hsolved)

/-- A program ends no later than with a command that ends it whatever comes behind. -/
theorem EndsAt.isPrefix (h : level.EndsAt program a c b) {x y : Program} {d : Command}
    (hsplit : program = x ++ d :: y)
    (hends : level.blocks x d = true ∨ level.isSolved (x ++ [d]) false = true) :
    a ++ [c] <+: x ++ [d] := by
  have ha : a ++ [c] <+: program := ⟨b, by rw [h.split, List.append_assoc, List.singleton_append]⟩
  have hx : x ++ [d] <+: program := ⟨y, by rw [hsplit, List.append_assoc, List.singleton_append]⟩
  rcases List.prefix_or_prefix_of_prefix ha hx with hle | hle
  · exact hle
  rcases List.prefix_concat_iff.mp hle with heq | ⟨r, hr⟩
  · rw [heq]
  · -- the run would have gone on through the command that ends it
    rw [List.append_assoc, List.singleton_append] at hr
    obtain ⟨hfree, hopen⟩ := h.goesOn x d r hr.symm
    rw [hfree, hopen] at hends
    rcases hends with hends | hends <;> cases hends

theorem EndsAt.unique {a' b' : Program} {c' : Command} (h : level.EndsAt program a c b)
    (h' : level.EndsAt program a' c' b') : a = a' ∧ c = c' := by
  have hlen : a.length = a'.length := h.isLeast.unique h'.isLeast
  obtain ⟨rfl, hrest⟩ := List.append_inj (h.split.symm.trans h'.split) hlen
  exact ⟨rfl, (List.cons.inj hrest).1⟩

/-- A program that begins with commands that go on does not end among them. -/
theorem EndsAt.exists_append (hgo : level.GoesOn p) (h : level.EndsAt (p ++ q) a c b)
    (hq : q ≠ []) : ∃ r, a = p ++ r := by
  rcases List.append_eq_append_iff.mp h.split with ⟨r, ha, -⟩ | ⟨r, hp, hr⟩
  · exact ⟨r, ha⟩
  · cases r with
    | nil => exact ⟨[], by simpa using hp.symm⟩
    | cons d r =>
      exfalso
      rw [List.cons_append] at hr
      obtain ⟨rfl, rfl⟩ := List.cons.inj hr
      obtain ⟨hfree, hopen⟩ := hgo _ _ _ hp
      have hmore : (r ++ q).isEmpty = false := by simpa using fun _ => hq
      rcases h.ends with hblocked | hsolved | hnone
      · rw [hfree] at hblocked
        cases hblocked
      · rw [hmore, hopen] at hsolved
        cases hsolved
      · exact hq (List.append_eq_nil_iff.mp hnone).2

end EndsAt

section Passing

variable (level : Level) (a : Program) (c : Command)

theorem length_passing : (level.passing a).length = a.length := by
  simp [passing]

theorem passing_concat :
    level.passing (a ++ [c]) = level.passing a ++ [.continued (level.poseAfter (a ++ [c]))] :=
  map_range_take_concat (fun cs => Outcome.continued (level.poseAfter cs)) a c

theorem passing_isPrefix (b : Program) : level.passing a <+: level.passing (a ++ b) := by
  induction b using List.reverseRecOn with
  | nil => rw [List.append_nil]
  | append_singleton b d ih =>
    rw [← List.append_assoc, passing_concat]
    exact ih.trans (List.prefix_append _ _)

theorem passing_map_pose :
    (level.passing a).map (fun o => Outcome.continued o.pose) = level.passing a := by
  unfold passing
  rw [List.map_map]
  rfl

end Passing

end Level

/-! ## Executing a program to its end -/

namespace Session

section Finish

variable {level : Level} {program a b : Program} {c : Command}

/-- A run goes on through the commands before the end, and ends as the course says. -/
theorem finish_of_endsAt (ho : level.objective.IsPlayable) (h : level.EndsAt program a c b) :
    (begun level program).finish.value.1 =
      level.passing a ++ [level.ending program a.length] := by
  have hleast := h.isLeast
  have hlast : level.outcomeAt program a.length = level.ending program a.length :=
    if_pos hleast.1
  have hgo : (List.range a.length).map (level.outcomeAt program) = level.passing a := by
    refine List.map_congr_left fun i hi => ?_
    have hi := List.mem_range.mp hi
    have htake : program.take (i + 1) = a.take (i + 1) := by
      rw [h.split, List.take_append_of_le_length hi]
    rw [Level.outcomeAt, ends_eq_false hleast hi, htake]
    rfl
  rw [finish_begun ho h.ne_nil hleast h.length_lt, List.range_succ, List.map_append,
    List.map_singleton, hgo, hlast]

/-- When a run has ended, the commands taken are those it went on through, and the one that ended it
unless that one was blocked. -/
theorem taken_of_endsAt (ho : level.objective.IsPlayable) (h : level.EndsAt program a c b) :
    (begun level program).finish.value.2.run.History level ∧
    (begun level program).finish.value.2.run.taken = level.takenAt a c := by
  have hleast := h.isLeast
  have hat : IsAt level program a.length (ticked^[a.length] (begun level program)) :=
    (isAt_begun level h.ne_nil).iterate ho fun i hi => ends_eq_false hleast hi
  obtain ⟨hlevel, hprogram, hrun, hcursor, hhist⟩ := hat
  rw [finish_begun ho h.ne_nil hleast h.length_lt, Function.iterate_succ_apply']
  generalize ticked^[a.length] (begun level program) = s at hlevel hprogram hrun hcursor hhist ⊢
  have hc : s.run.program[s.run.cursor]? = some c := by
    rw [hprogram, hcursor, h.split]
    simp
  have htaken : s.run.taken = a := by
    rw [Run.taken_of_running hrun, hprogram, hcursor, h.split, List.take_left]
  have hblocks : level.isIllegal s.run.program s.run.cursor = level.blocks a c := by
    rw [hprogram, hcursor, h.split, Level.isIllegal_split]
  have hallows := hhist.allows_eq ho hrun hc
  rw [hblocks] at hallows
  refine ⟨?_, ?_⟩
  · show ((s.run.tick s.level).2).History level
    rw [hlevel]
    exact hhist.tick
  · rw [ticked_run, hlevel, Level.takenAt]
    cases hb : level.blocks a c with
    | true =>
      rw [hb] at hallows
      rw [Run.tick_blocked hrun hc hallows, Run.taken_after_blocked hrun, htaken, if_pos rfl]
    | false =>
      rw [hb] at hallows
      rw [Run.tick_taken hrun hc hallows, Run.taken_after_taken hrun hc, htaken]
      rfl

end Finish

section Append

variable {level : Level} {p q a b : Program} {c : Command}

/-- A program that is blocked, or has solved the level by a rule that does not look ahead, comes to
the same with more commands behind it. -/
theorem finish_append_eq (ho : level.objective.IsPlayable) (h : level.EndsAt p a c b)
    (hends : level.blocks a c = true ∨
      level.completion ≠ .objective ∧ level.isSolved (a ++ [c]) b.isEmpty = true) :
    (begun level (p ++ q)).finish.value.1 = (begun level p).finish.value.1 := by
  have hlong : level.EndsAt (p ++ q) a c (b ++ q) := by
    refine h.append ?_
    rcases hends with hblocked | ⟨hrule, hsolved⟩
    · exact .inl hblocked
    · right
      rwa [level.isSolved_of_ne (a ++ [c]) hrule _ b.isEmpty]
  have hsame : level.ending (p ++ q) a.length = level.ending p a.length := by
    rw [hlong.split, h.split, Level.ending_split, Level.ending_split]
    rcases hends with hblocked | ⟨hrule, -⟩
    · rw [if_pos hblocked, if_pos hblocked]
    · rw [level.isSolved_of_ne (a ++ [c]) hrule (b ++ q).isEmpty b.isEmpty]
  rw [finish_of_endsAt ho hlong, finish_of_endsAt ho h, hsame]

/-- Commands that go on do so with the poses of their course, whatever comes behind them. -/
theorem take_finish_append (ho : level.objective.IsPlayable) (hgo : level.GoesOn p) (hq : q ≠ []) :
    (begun level (p ++ q)).finish.value.1.take p.length = level.passing p := by
  obtain ⟨a, c, b, h⟩ := level.exists_endsAt (List.append_ne_nil_of_right_ne_nil p hq)
  obtain ⟨r, rfl⟩ := h.exists_append hgo hq
  obtain ⟨rest, hrest⟩ := level.passing_isPrefix p r
  rw [finish_of_endsAt ho h, ← hrest, List.append_assoc, ← level.length_passing p, List.take_left]

/-- A program that is executed to its last command, which is not blocked, has an outcome for each
command, with the poses of its course. -/
theorem map_pose_finish (ho : level.objective.IsPlayable) (h : level.EndsAt p a c [])
    (hfree : level.blocks a c = false) :
    (begun level p).finish.value.1.length = p.length ∧
    (begun level p).finish.value.1.map (fun o => Outcome.continued o.pose) = level.passing p := by
  have hpose : (level.ending p a.length).pose = level.poseAfter (a ++ [c]) := by
    rw [h.pose_ending, Level.takenAt, hfree]
    rfl
  rw [finish_of_endsAt ho h]
  refine ⟨?_, ?_⟩
  · rw [List.length_append, level.length_passing, h.split, List.length_append, List.length_singleton,
      List.length_singleton]
  · rw [List.map_append, level.passing_map_pose, List.map_singleton, hpose, h.split,
      level.passing_concat]

end Append

/-- **More commands behind a program.** On a level that can be played, compare a program with the
same program and more commands behind it. If the program is aborted, or solves the level by a rule
that looks at targets, both have the same outcomes. If it solves the level by the rule that looks at
the objective only, or runs out, then with more behind it the run goes on through all its poses; and
in the first case the longer program is never exhausted, as the objective stays performed. -/
theorem outcomes_of_append (s : Session) (p q : Program) (hlevel : s.level.validate = .ok ())
    (hne : p ≠ []) (hidle : s.run.phase ≠ .running) :
    ∃ t u last last', (s.start p).value = .ok t ∧ (s.start (p ++ q)).value = .ok u ∧
      t.finish.value.1.getLast? = some last ∧ last.kind ≠ .continued ∧
      u.finish.value.1.getLast? = some last' ∧ last'.kind ≠ .continued ∧
      (last.kind = .aborted → u.finish.value.1 = t.finish.value.1) ∧
      (last.kind = .completed → s.level.completion ≠ .objective →
        u.finish.value.1 = t.finish.value.1) ∧
      (last.kind = .completed → s.level.completion = .objective → q ≠ [] →
        t.finish.value.1.length = p.length ∧
        u.finish.value.1.take p.length = t.finish.value.1.map (fun o => .continued o.pose) ∧
        (last'.kind = .completed ∨ last'.kind = .aborted)) ∧
      (last.kind = .exhausted → q ≠ [] →
        t.finish.value.1.length = p.length ∧
        u.finish.value.1.take p.length = t.finish.value.1.map (fun o => .continued o.pose)) := by
  obtain ⟨level, run⟩ := s
  dsimp only at hlevel hidle ⊢
  have ho : level.objective.IsPlayable := Level.objective_isPlayable hlevel
  have hlong : p ++ q ≠ [] := List.append_ne_nil_of_left_ne_nil hne q
  obtain ⟨a, c, b, h⟩ := level.exists_endsAt hne
  obtain ⟨a', c', b', h'⟩ := level.exists_endsAt hlong
  refine ⟨begun level p, begun level (p ++ q), level.ending p a.length,
    level.ending (p ++ q) a'.length, start_eq_ok hne hidle, start_eq_ok hlong hidle, ?_, ?_, ?_, ?_,
    ?_, ?_, ?_, ?_⟩
  · rw [finish_of_endsAt ho h, List.getLast?_concat]
  · exact h.kind_ne_continued
  · rw [finish_of_endsAt ho h', List.getLast?_concat]
  · exact h'.kind_ne_continued
  · intro hkind
    exact finish_append_eq ho h (.inl (h.endsAs hkind))
  · intro hkind hrule
    obtain ⟨-, hsolved⟩ := h.endsAs hkind
    exact finish_append_eq ho h (.inr ⟨hrule, hsolved⟩)
  · intro hkind hrule hq
    obtain ⟨hfree, hsolved⟩ := h.endsAs hkind
    -- this rule is met by the whole program only
    rw [level.isSolved_objective _ hrule, Bool.and_eq_true, List.isEmpty_iff] at hsolved
    obtain ⟨hperformed, rfl⟩ := hsolved
    have hgo : level.GoesOn p := by
      rw [h.split]
      refine Level.goesOn_concat h.goesOn hfree ?_
      rw [level.isSolved_objective _ hrule, Bool.and_false]
    obtain ⟨hlength, hmap⟩ := map_pose_finish ho h hfree
    refine ⟨hlength, (take_finish_append ho hgo hq).trans hmap.symm, ?_⟩
    cases hkind' : (level.ending (p ++ q) a'.length).kind with
    | aborted => exact .inr rfl
    | completed => exact .inl rfl
    | continued => exact absurd hkind' h'.kind_ne_continued
    | exhausted =>
      exfalso
      obtain ⟨-, hopen, rfl⟩ := h'.endsAs hkind'
      obtain ⟨r, rfl⟩ := h'.exists_append hgo hq
      rw [level.isSolved_objective _ hrule, h.split, List.append_assoc,
        Objective.isPerformed_append _ hperformed] at hopen
      cases hopen
  · intro hkind hq
    obtain ⟨hfree, hopen, rfl⟩ := h.endsAs hkind
    have hgo : level.GoesOn p := by
      rw [h.split]
      exact Level.goesOn_concat h.goesOn hfree (level.isSolved_false _ hopen)
    obtain ⟨hlength, hmap⟩ := map_pose_finish ho h hfree
    exact ⟨hlength, (take_finish_append ho hgo hq).trans hmap.symm⟩

/-- On the first level, three steps forward solve it as a program of their own, and with more behind
them the run goes on at the same poses. -/
theorem outcomes_of_append_firstStrokes :
    let s : Session := ⟨Level.firstStrokes, Run.fresh Level.firstStrokes⟩
    let p : Program := [.forward, .forward, .forward]
    let q : Program := [.wait, .forward]
    s.level.validate = .ok () ∧ p ≠ [] ∧ s.run.phase ≠ .running ∧ q ≠ [] ∧
      ∃ t u last, (s.start p).value = .ok t ∧ (s.start (p ++ q)).value = .ok u ∧
        t.finish.value.1.getLast? = some last ∧ last.kind = .completed ∧
        u.finish.value.1.take 3 = t.finish.value.1.map (fun o => .continued o.pose) := by
  intro s p q
  have hlevel : s.level.validate = .ok () := Level.validate_builtin _ (by simp [s, Level.builtins])
  have hidle : s.run.phase ≠ .running := by decide
  obtain ⟨t, u, last, last', ht, hu, hlast, -, -, -, -, -, hcompleted, -⟩ :=
    outcomes_of_append s p q hlevel (by decide) hidle
  have hkind : last.kind = .completed := by
    obtain rfl : begun Level.firstStrokes p = t := Except.ok.inj ht
    have hvalue : (begun Level.firstStrokes p).finish.value.1.getLast?.map Outcome.kind =
        some .completed := by decide +kernel
    rw [hlast] at hvalue
    exact Option.some.inj hvalue
  exact ⟨hlevel, by decide, hidle, by decide, t, u, last, ht, hu, hlast, hkind,
    (hcompleted hkind rfl (by decide)).2.1⟩

end Session

end Seahorse
