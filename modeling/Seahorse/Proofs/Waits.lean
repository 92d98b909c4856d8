import Seahorse.Proofs.Endings

/-!
# Waiting

A wait leaves the seahorse where it is and counts for nothing in the objective. It does take a tick,
and the tick looks for targets: waiting first of all collects what is in range of the start, which
no program without a wait there would. So a program with waits put in may collect more than the
program itself and may solve the level sooner, but never later.
-/

namespace Seahorse

/-- The second program is the first with waits put in, any number of them at any places. -/
inductive WaitsAdded : Program → Program → Prop where
  | nil : WaitsAdded [] []
  /-- Both go on with the same command. -/
  | keep (c : Command) {p q : Program} : WaitsAdded p q → WaitsAdded (p ++ [c]) (q ++ [c])
  /-- A wait is put in. -/
  | wait {p q : Program} : WaitsAdded p q → WaitsAdded p (q ++ [.wait])

namespace WaitsAdded

variable {p q : Program}

/-! ## What waits do not change -/

/-- Waits do not count for the objective. -/
theorem counted_eq (h : WaitsAdded p q) : Objective.counted q = Objective.counted p := by
  induction h with
  | nil => rfl
  | keep c _ ih => simp only [Objective.counted, List.filter_append] at ih ⊢; rw [ih]
  | wait _ ih => rw [Objective.counted_concat_wait, ih]

theorem isPerformed_eq (h : WaitsAdded p q) (o : Objective) : o.isPerformed q = o.isPerformed p := by
  rw [Objective.isPerformed, h.counted_eq, Objective.isPerformed]

theorem groupsDone_eq (h : WaitsAdded p q) (o : Objective) : o.groupsDone q = o.groupsDone p := by
  rw [Objective.groupsDone, h.counted_eq, Objective.groupsDone]

theorem count_forward_eq (h : WaitsAdded p q) : q.count .forward = p.count .forward := by
  induction h with
  | nil => rfl
  | keep c _ ih => rw [List.count_append, List.count_append, ih]
  | wait _ ih => rw [List.count_append, ih]; rfl

/-- Waits do not move the seahorse. -/
theorem poseAfter_eq (h : WaitsAdded p q) (level : Level) :
    level.poseAfter q = level.poseAfter p := by
  induction h with
  | nil => rfl
  | keep c _ ih => rw [Level.poseAfter_concat, Level.poseAfter_concat, ih]
  | wait _ ih => rw [Level.poseAfter_concat, ih]; rfl

theorem matcherAfter_eq (h : WaitsAdded p q) (level : Level) :
    level.matcherAfter q = level.matcherAfter p := by
  induction h with
  | nil => rfl
  | keep c _ ih => rw [Level.matcherAfter_concat, Level.matcherAfter_concat, ih]
  | wait _ ih => rw [Level.matcherAfter_concat, Matcher.feed_wait, ih]

/-- So the same commands are blocked. -/
theorem blocks_eq (h : WaitsAdded p q) (level : Level) (c : Command) :
    level.blocks q c = level.blocks p c := by
  unfold Level.blocks
  rw [(h.keep c).poseAfter_eq, h.groupsDone_eq]

/-! ## What waits can only add -/

/-- What is reached is reached with the waits too. -/
theorem reaches_of_reaches (h : WaitsAdded p q) (level : Level) {t : Target}
    (ht : level.reaches p t = true) : level.reaches q t = true := by
  induction h with
  | nil => exact ht
  | keep c h ih =>
    rw [Level.reaches_concat, Bool.or_eq_true] at ht ⊢
    rw [(h.keep c).poseAfter_eq]
    exact ht.imp_left ih
  | wait _ ih =>
    rw [Level.reaches_concat, Bool.or_eq_true]
    exact .inl (ih ht)

theorem isSolved_of_isSolved (h : WaitsAdded p q) (level : Level) {whole : Bool}
    (hp : level.isSolved p whole = true) : level.isSolved q whole = true := by
  have htargets : (level.targets.all fun t => !t.required || level.reaches p t) = true →
      (level.targets.all fun t => !t.required || level.reaches q t) = true := by
    intro hall
    rw [List.all_eq_true] at hall ⊢
    intro t ht
    have hreach := hall t ht
    rw [Bool.or_eq_true] at hreach ⊢
    exact hreach.imp_right (h.reaches_of_reaches level)
  unfold Level.isSolved Completion.isMet at hp ⊢
  rw [h.isPerformed_eq]
  cases hrule : level.completion with
  | objective =>
    rw [hrule] at hp
    exact hp
  | objectiveAndTargets =>
    rw [hrule] at hp
    simp only [Bool.and_eq_true] at hp ⊢
    exact ⟨hp.1, htargets hp.2⟩
  | targetsOnly =>
    rw [hrule] at hp
    exact htargets hp

/-! ## Finding a command again -/

theorem ne_nil (h : WaitsAdded p q) (hne : p ≠ []) : q ≠ [] := by
  cases h with
  | nil => exact hne
  | keep c _ => simp
  | wait _ => simp

/-- A command of the program is found again, behind the same commands with waits put in. -/
theorem split (h : WaitsAdded p q) {a b : Program} {c : Command} (hp : p = a ++ c :: b) :
    ∃ a' b', q = a' ++ c :: b' ∧ WaitsAdded a a' := by
  induction h generalizing b with
  | nil => simp at hp
  | keep d h ih =>
    rcases concat_eq_append_cons hp with ⟨-, rfl, rfl⟩ | ⟨b, -, hp⟩
    · exact ⟨_, [], rfl, h⟩
    · obtain ⟨a', b', rfl, ha⟩ := ih hp
      exact ⟨a', b' ++ [d], by simp, ha⟩
  | wait h ih =>
    obtain ⟨a', b', rfl, ha⟩ := ih hp
    exact ⟨a', b' ++ [.wait], by simp, ha⟩

end WaitsAdded

/-! ## Legal programs -/

namespace Level

/-- None of the commands leads off the legal area. -/
def IsLegal (level : Level) (cs : Program) : Prop :=
  ∀ a c b, cs = a ++ c :: b → level.blocks a c = false

section IsLegal

variable {level : Level} {p q a b : Program} {c : Command}

theorem GoesOn.isLegal (h : level.GoesOn a) : level.IsLegal a :=
  fun x d y hsplit => (h x d y hsplit).1

/-- The rule that waits for the whole program lets every legal program go on. -/
theorem IsLegal.goesOn (h : level.IsLegal a) (hrule : level.completion = .objective) :
    level.GoesOn a := by
  intro x d y hsplit
  refine ⟨h x d y hsplit, ?_⟩
  rw [level.isSolved_objective _ hrule, Bool.and_false]

/-- A program is legal if all but its last command is and that command is not blocked. -/
theorem isLegal_concat_iff :
    level.IsLegal (a ++ [c]) ↔ level.IsLegal a ∧ level.blocks a c = false := by
  constructor
  · intro h
    refine ⟨fun x d y hsplit => h x d (y ++ [c]) ?_, h a c [] rfl⟩
    rw [hsplit, List.append_assoc, List.cons_append]
  · rintro ⟨ha, hc⟩ x d y hsplit
    rcases concat_eq_append_cons hsplit with ⟨-, rfl, rfl⟩ | ⟨y, -, rfl⟩
    · exact hc
    · exact ha x d y rfl

end IsLegal

end Level

namespace WaitsAdded

variable {level : Level} {p q a b : Program} {c : Command}

/-- Waits added to a legal program leave it legal. -/
theorem isLegal (h : WaitsAdded p q) (hp : level.IsLegal p) : level.IsLegal q := by
  induction h with
  | nil => exact hp
  | keep c h ih =>
    rw [Level.isLegal_concat_iff] at hp ⊢
    exact ⟨ih hp.1, (h.blocks_eq level c).trans hp.2⟩
  | wait h ih => exact Level.isLegal_concat_iff.mpr ⟨ih hp, rfl⟩

/-! ## How the program with waits ends -/

/-- If the program solves the level, so does the program with waits, perhaps sooner. -/
theorem completes (hpq : WaitsAdded p q) (hrule : level.completion ≠ .objective)
    (h : level.EndsAt p a c b) (hfree : level.blocks a c = false)
    (hsolved : level.isSolved (a ++ [c]) b.isEmpty = true) {a' b' : Program} {c' : Command}
    (h' : level.EndsAt q a' c' b') : (level.ending q a'.length).kind = .completed := by
  obtain ⟨x, y, hq, hx⟩ := hpq.split h.split
  have hlegal : level.IsLegal (x ++ [c]) :=
    (hx.keep c).isLegal (Level.isLegal_concat_iff.mpr ⟨h.goesOn.isLegal, hfree⟩)
  have hsolved' : ∀ whole, level.isSolved (x ++ [c]) whole = true := by
    intro whole
    rw [level.isSolved_of_ne _ hrule whole b.isEmpty]
    exact (hx.keep c).isSolved_of_isSolved level hsolved
  have hle : a' ++ [c'] <+: x ++ [c] := h'.isPrefix hq (.inr (hsolved' false))
  cases hkind : (level.ending q a'.length).kind with
  | completed => rfl
  | continued => exact absurd hkind h'.kind_ne_continued
  | aborted =>
    have hblocked : level.blocks a' c' = true := h'.endsAs hkind
    obtain ⟨r, hr⟩ := hle
    rw [List.append_assoc, List.singleton_append] at hr
    rw [hlegal a' c' r hr.symm] at hblocked
    cases hblocked
  | exhausted =>
    obtain ⟨-, hopen, rfl⟩ := h'.endsAs hkind
    -- the whole program has come no further than the command that solves the level
    have hge : x ++ [c] <+: a' ++ [c'] := by
      rw [← h'.split, hq]
      exact ⟨y, by rw [List.append_assoc, List.singleton_append]⟩
    rw [hle.eq_of_length_le hge.length_le, hsolved'] at hopen
    cases hopen

/-- By the rule that waits for the whole program, the program with waits ends with the same command
as the program if that is blocked, and with its last command otherwise. -/
theorem exists_endsAt (hpq : WaitsAdded p q) (hrule : level.completion = .objective)
    (h : level.EndsAt p a c b) :
    ∃ a' c' b', level.EndsAt q a' c' b' ∧ level.blocks a' c' = level.blocks a c ∧
      WaitsAdded (level.takenAt a c) (level.takenAt a' c') ∧
      (level.ending q a'.length).kind = (level.ending p a.length).kind := by
  cases hb : level.blocks a c with
  | true =>
    obtain ⟨x, y, hq, hx⟩ := hpq.split h.split
    have hblocked : level.blocks x c = true := (hx.blocks_eq level c).trans hb
    have hends : level.EndsAt q x c y :=
      ⟨hq, (hx.isLegal h.goesOn.isLegal).goesOn hrule, .inl hblocked⟩
    refine ⟨x, c, y, hends, hblocked, ?_, ?_⟩
    · rw [Level.takenAt, Level.takenAt, if_pos hb, if_pos hblocked]
      exact hx
    · rw [hends.kind_ending, h.kind_ending, if_pos hb, if_pos hblocked]
  | false =>
    obtain rfl : b = [] := by
      rcases h.ends with hblocked | hsolved | hnone
      · rw [hb] at hblocked
        cases hblocked
      · rw [level.isSolved_objective _ hrule, Bool.and_eq_true, List.isEmpty_iff] at hsolved
        exact hsolved.2
      · exact hnone
    have hp : level.IsLegal p := by
      rw [h.split]
      exact Level.isLegal_concat_iff.mpr ⟨h.goesOn.isLegal, hb⟩
    obtain ⟨x, d, rfl⟩ : ∃ x d, q = x ++ [d] := by
      rcases List.eq_nil_or_concat q with hq | ⟨x, d, hq⟩
      · exact absurd hq (hpq.ne_nil h.ne_nil)
      · exact ⟨x, d, by rw [hq, List.concat_eq_append]⟩
    obtain ⟨hx, hd⟩ := Level.isLegal_concat_iff.mp (hpq.isLegal hp)
    have hends : level.EndsAt (x ++ [d]) x d [] := ⟨rfl, hx.goesOn hrule, .inr (.inr rfl)⟩
    have hpq' : WaitsAdded (a ++ [c]) (x ++ [d]) := by rwa [← h.split]
    refine ⟨x, d, [], hends, hd, ?_, ?_⟩
    · rw [Level.takenAt, Level.takenAt, hb, hd]
      exact hpq'
    · rw [hends.kind_ending, h.kind_ending, hb, hd, level.isSolved_objective _ hrule,
        level.isSolved_objective _ hrule, hpq'.isPerformed_eq]

end WaitsAdded

namespace Session

/-- **Waiting never spoils a program.** On a level that can be played, put waits into a program, any
number at any places. If the program solves the level, so does the one with waits. By the rule that
looks at the objective only, both end in the same way whatever the program comes to: with the same
kind of outcome, the same pose, the same reason if they are aborted, and with the same matcher and
the same number of steps forward. -/
theorem ending_of_waitsAdded (s : Session) {p q : Program} (hlevel : s.level.validate = .ok ())
    (hne : p ≠ []) (hidle : s.run.phase ≠ .running) (hpq : WaitsAdded p q) :
    ∃ t u last last', (s.start p).value = .ok t ∧ (s.start q).value = .ok u ∧
      t.finish.value.1.getLast? = some last ∧ last.kind ≠ .continued ∧
      u.finish.value.1.getLast? = some last' ∧ last'.kind ≠ .continued ∧
      (last.kind = .completed → last'.kind = .completed) ∧
      (s.level.completion = .objective →
        last'.kind = last.kind ∧ last'.pose = last.pose ∧ last'.reason? = last.reason? ∧
        u.finish.value.2.run.matcher = t.finish.value.2.run.matcher ∧
        u.finish.value.2.run.forwardSteps = t.finish.value.2.run.forwardSteps) := by
  obtain ⟨level, run⟩ := s
  dsimp only at hlevel hidle ⊢
  have ho : level.objective.IsPlayable := Level.objective_isPlayable hlevel
  have hne' : q ≠ [] := hpq.ne_nil hne
  obtain ⟨a, c, b, h⟩ := level.exists_endsAt hne
  obtain ⟨a', c', b', h'⟩ := level.exists_endsAt hne'
  have hobjective : level.completion = .objective → level.blocks a' c' = level.blocks a c ∧
      WaitsAdded (level.takenAt a c) (level.takenAt a' c') ∧
      (level.ending q a'.length).kind = (level.ending p a.length).kind := by
    intro hrule
    obtain ⟨x, d, y, hx, hblocks, htaken, hkind⟩ := hpq.exists_endsAt hrule h
    obtain ⟨rfl, rfl⟩ := hx.unique h'
    exact ⟨hblocks, htaken, hkind⟩
  refine ⟨begun level p, begun level q, level.ending p a.length, level.ending q a'.length,
    start_eq_ok hne hidle, start_eq_ok hne' hidle, ?_, h.kind_ne_continued, ?_,
    h'.kind_ne_continued, ?_, ?_⟩
  · rw [finish_of_endsAt ho h, List.getLast?_concat]
  · rw [finish_of_endsAt ho h', List.getLast?_concat]
  · intro hkind
    by_cases hrule : level.completion = .objective
    · exact (hobjective hrule).2.2.trans hkind
    · obtain ⟨hfree, hsolved⟩ := h.endsAs hkind
      exact hpq.completes hrule h hfree hsolved h'
  · intro hrule
    obtain ⟨hblocks, htaken, hkind⟩ := hobjective hrule
    obtain ⟨hhist, hcommands⟩ := taken_of_endsAt ho h
    obtain ⟨hhist', hcommands'⟩ := taken_of_endsAt ho h'
    refine ⟨hkind, ?_, ?_, ?_, ?_⟩
    · rw [h'.pose_ending, h.pose_ending, htaken.poseAfter_eq]
    · rw [h'.reason_ending, h.reason_ending, hblocks]
    · rw [hhist'.matcher_eq, hhist.matcher_eq, hcommands', hcommands, htaken.matcherAfter_eq]
    · rw [hhist'.forwardSteps_eq, hhist.forwardSteps_eq, hcommands', hcommands,
        htaken.count_forward_eq]

/-- On the walkway: the solution with waits put in before it, inside it and behind it. -/
theorem ending_of_waitsAdded_theBend :
    let s : Session := ⟨Level.theBend, Run.fresh Level.theBend⟩
    let p : Program := [.forward, .forward, .forward, .turnRight]
    let q : Program := [.wait, .forward, .wait, .wait, .forward, .forward, .turnRight, .wait]
    s.level.validate = .ok () ∧ p ≠ [] ∧ s.run.phase ≠ .running ∧ WaitsAdded p q ∧
      ∃ t u last last', (s.start p).value = .ok t ∧ (s.start q).value = .ok u ∧
        t.finish.value.1.getLast? = some last ∧ u.finish.value.1.getLast? = some last' ∧
        last.kind = .completed ∧ last'.kind = .completed ∧ last'.pose = last.pose ∧
        u.finish.value.2.run.matcher = t.finish.value.2.run.matcher := by
  intro s p q
  have hlevel : s.level.validate = .ok () := Level.validate_builtin _ (by simp [s, Level.builtins])
  have hidle : s.run.phase ≠ .running := by decide
  have hpq : WaitsAdded p q :=
    .wait (.keep .turnRight (.keep .forward (.keep .forward (.wait (.wait (.keep .forward
      (.wait .nil)))))))
  obtain ⟨t, u, last, last', ht, hu, hlast, -, hlast', -, hcompletes, hsame⟩ :=
    ending_of_waitsAdded s hlevel (by decide) hidle hpq
  have hkind : last.kind = .completed := by
    obtain rfl : begun Level.theBend p = t := Except.ok.inj ht
    have hvalue : (begun Level.theBend p).finish.value.1.getLast?.map Outcome.kind =
        some .completed := by decide +kernel
    rw [hlast] at hvalue
    exact Option.some.inj hvalue
  obtain ⟨-, hpose, -, hmatcher, -⟩ := hsame rfl
  exact ⟨hlevel, by decide, hidle, hpq, t, u, last, last', ht, hu, hlast, hlast', hkind,
    hcompletes hkind, hpose, hmatcher⟩

end Session

end Seahorse
