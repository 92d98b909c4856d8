import Seahorse.Proofs.Requests

/-!
# Starts that start nothing

A text is started in vain if it cannot be read, if it holds no command, or if a program is being
executed. A start that is refused leaves the page as it is. The empty program is not refused: the
run, the settings and the storage stay as they are, but the clock is set so that the next tick is due
at once. While nothing is being executed nobody can tell. While a program is being executed, the next
frame can execute a command ahead of its time.
-/

namespace Seahorse

namespace Runner

/-- The runner with its next tick due at once. -/
def rearmed (r : Runner) : Runner :=
  { r with pacer := r.pacer.reset }

@[simp]
theorem rearmed_comp_rearmed : rearmed ∘ rearmed = rearmed := rfl

theorem rearmed_eq_self_iff {r : Runner} : r.rearmed = r ↔ r.pacer.elapsed = r.pacer.interval := by
  obtain ⟨session, ⟨interval, elapsed⟩, settings⟩ := r
  simp [rearmed, Pacer.reset, eq_comm]

/-- A start sets the clock or is refused, so it does not matter how the clock was set. -/
theorem start_rearmed (text : String) (r : Runner) :
    (r.rearmed.start text).value = (r.start text).value := by
  unfold start
  cases Json.decode? Program.ofJson? text with
  | none => rfl
  | some program =>
    have hsession : r.rearmed.session = r.session := rfl
    simp only [hsession, Logged.value_bind]
    cases (r.session.start program).value <;> rfl

end Runner

namespace Page

/-- The page with the next tick of its runner due at once. -/
def rearmed (page : Page) : Page :=
  { page with runner := page.runner.map Runner.rearmed }

/-- Whether a program is being executed on the page. -/
def isRunning (page : Page) : Bool :=
  page.runner.any (·.session.isRunning)

/-- Answers that say the same and leave the same page, but for the time on the clock. -/
structure SameButClock (a b : Reply × Page) : Prop where
  reply : a.1 = b.1
  page : a.2.rearmed = b.2.rearmed

section SameButClock

variable {page : Page} {r : Runner}

theorem rearmed_eq (hr : page.runner = some r) :
    page.rearmed = { page with runner := some r.rearmed } := by
  simp [rearmed, hr]

@[simp]
theorem rearmed_rearmed (page : Page) : page.rearmed.rearmed = page.rearmed := by
  simp [rearmed]

theorem rearmed_eq_self_iff (hr : page.runner = some r) :
    page.rearmed = page ↔ r.pacer.elapsed = r.pacer.interval := by
  rw [← Runner.rearmed_eq_self_iff, rearmed_eq hr]
  constructor
  · intro h
    have hrunner := congrArg Page.runner h
    rw [hr] at hrunner
    exact Option.some.inj hrunner
  · intro h
    rw [h, ← hr]

/-- An act that does not look at the time does not tell the runner from the rearmed one. -/
theorem SameButClock.withRunner {act : Runner → Logged (Reply × Runner)}
    (hact : ∀ r, page.runner = some r → (act r.rearmed).value.1 = (act r).value.1 ∧
      (act r.rearmed).value.2.rearmed = (act r).value.2.rearmed) :
    SameButClock (page.rearmed.withRunner act).value (page.withRunner act).value := by
  cases hr : page.runner with
  | none =>
    have hr' : page.rearmed.runner = none := by simp [rearmed, hr]
    simp only [Page.withRunner, hr, hr']
    exact ⟨rfl, page.rearmed_rearmed⟩
  | some r =>
    obtain ⟨hreply, hrunner⟩ := hact r hr
    have hr' : page.rearmed.runner = some r.rearmed := by simp [rearmed, hr]
    rw [withRunner_value hr, withRunner_value hr']
    refine ⟨hreply, ?_⟩
    simp [rearmed, hrunner]

theorem SameButClock.install (page : Page) (opened : Except Refusal Runner) :
    SameButClock (page.rearmed.install opened) (page.install opened) := by
  cases opened with
  | ok r => exact ⟨rfl, rfl⟩
  | error refusal => exact ⟨rfl, page.rearmed_rearmed⟩

theorem SameButClock.setPace (page : Page) (text : String) :
    SameButClock (page.rearmed.setPace text).value (page.setPace text).value := by
  unfold Page.setPace
  cases hr : page.runner with
  | none =>
    have hr' : page.rearmed.runner = none := by simp [rearmed, hr]
    rw [hr']
    exact ⟨rfl, page.rearmed_rearmed⟩
  | some r =>
    have hr' : page.rearmed.runner = some r.rearmed := by simp [rearmed, hr]
    rw [hr']
    cases Pace.parse? text with
    | none => exact ⟨rfl, page.rearmed_rearmed⟩
    | some pace => exact ⟨rfl, rfl⟩

/-- **Step.** Only a frame during the execution of a program looks at the time. -/
theorem SameButClock.answer (page : Page) (request : Request)
    (h : ∀ millis, request = .advance millis → page.isRunning = false) :
    SameButClock (page.rearmed.answer request).value (page.answer request).value := by
  cases request with
  | openBuiltin id => exact .install page _
  | openText text => exact .install page _
  | start text =>
    refine .withRunner fun r _ => ?_
    simp only [Logged.value_bind, Runner.start_rearmed]
    cases (r.start text).value <;> exact ⟨rfl, rfl⟩
  | tick => exact .withRunner fun r _ => ⟨rfl, rfl⟩
  | advance millis =>
    refine .withRunner fun r hr => ?_
    have hidle : r.session.isRunning = false := by
      have := h millis rfl
      simpa [isRunning, hr] using this
    have hidle' : r.rearmed.session.isRunning = false := hidle
    simp only [Runner.advance, hidle, hidle']
    exact ⟨rfl, rfl⟩
  | drain => exact .withRunner fun r _ => ⟨rfl, rfl⟩
  | pose => exact .withRunner fun r _ => ⟨rfl, rfl⟩
  | captured => exact .withRunner fun r _ => ⟨rfl, rfl⟩
  | isRunning => exact .withRunner fun r _ => ⟨rfl, rfl⟩
  | reset => exact .withRunner fun r _ => ⟨rfl, rfl⟩
  | setPace text => exact .setPace page text
  | completionDelay => exact .withRunner fun r _ => ⟨rfl, rfl⟩
  | messageDuration => exact .withRunner fun r _ => ⟨rfl, rfl⟩
  | isUnlocked id => exact ⟨rfl, by simp [Page.answer, rearmed]⟩
  | complete id => exact ⟨rfl, by simp [Page.answer, rearmed]⟩
  | storage => exact ⟨rfl, page.rearmed_rearmed⟩
  | boot =>
    have hrunner := congrArg Page.runner page.rearmed_rearmed
    exact ⟨rfl, congrArg (fun runner => { (page.answer .boot).value.2 with runner }) hrunner⟩

end SameButClock

/-! ## Who can tell -/

/-- Pages that are the same but for the clock reply the same to all requests but frames. -/
theorem replies_rearmed_of_noFrame (page : Page) {requests : List Request}
    (h : ∀ millis, .advance millis ∉ requests) :
    (page.rearmed.answerAll requests).value.1 = (page.answerAll requests).value.1 := by
  refine replies_eq (R := fun p q => p.rearmed = q.rearmed)
    (A := fun request => ∀ millis, request ≠ .advance millis) ?_ page.rearmed_rearmed ?_
  · intro p q request hallowed hpq
    have hp := SameButClock.answer p request fun millis heq => absurd heq (hallowed millis)
    have hq := SameButClock.answer q request fun millis heq => absurd heq (hallowed millis)
    rw [hpq] at hp
    exact ⟨hp.reply.symm.trans hq.reply, hp.page.symm.trans hq.page⟩
  · rintro request hmem millis rfl
    exact h millis hmem

theorem isRunning_eq_of_rearmed_eq {p q : Page} (h : p.rearmed = q.rearmed) :
    p.isRunning = q.isRunning := by
  have hrearmed : ∀ page : Page, page.rearmed.isRunning = page.isRunning := by
    intro page
    cases hr : page.runner <;> simp [rearmed, isRunning, hr, Runner.rearmed]
  rw [← hrearmed p, h, hrearmed]

theorem isRunning_withRunner {page : Page} (hidle : page.isRunning = false)
    {act : Runner → Logged (Reply × Runner)}
    (hact : ∀ r, r.session.isRunning = false → (act r).value.2.session.isRunning = false) :
    (page.withRunner act).value.2.isRunning = false := by
  cases hr : page.runner with
  | none =>
    simp only [withRunner, hr]
    exact hidle
  | some r =>
    rw [withRunner_value hr]
    refine hact r ?_
    simpa [isRunning, hr] using hidle

theorem isRunning_install {page : Page} (hidle : page.isRunning = false)
    {opened : Except Refusal Runner} (hopened : ∀ r, opened = .ok r → r.session.isRunning = false) :
    (page.install opened).2.isRunning = false := by
  cases opened with
  | error refusal => exact hidle
  | ok r => exact hopened r rfl

/-- Nothing but a start begins the execution of a program. -/
theorem isRunning_answer {page : Page} (hidle : page.isRunning = false) {request : Request}
    (hstart : ∀ text, request ≠ .start text) : (page.answer request).value.2.isRunning = false := by
  cases request with
  | openBuiltin id =>
    refine isRunning_install hidle fun r hr => ?_
    obtain ⟨level, -, hsession⟩ := Runner.openBuiltin_eq_ok hr
    rw [hsession]
    rfl
  | openText text =>
    refine isRunning_install hidle fun r hr => ?_
    obtain ⟨level, -, hsession⟩ := Runner.openText_eq_ok hr
    rw [hsession]
    rfl
  | start text => exact absurd rfl (hstart text)
  | tick =>
    refine isRunning_withRunner hidle fun r hr => ?_
    have hphase : r.session.run.phase ≠ .running := by simpa [Session.isRunning] using hr
    show (r.session.ticked).isRunning = false
    rw [Session.isRunning, Session.ticked_run, Run.tick_of_not_running hphase]
    exact hr
  | advance millis =>
    refine isRunning_withRunner hidle fun r hr => ?_
    simp only [Runner.advance, hr]
    exact hr
  | drain => exact isRunning_withRunner hidle fun r hr => hr
  | pose => exact isRunning_withRunner hidle fun r hr => hr
  | captured => exact isRunning_withRunner hidle fun r hr => hr
  | isRunning => exact isRunning_withRunner hidle fun r hr => hr
  | reset => exact isRunning_withRunner hidle fun r hr => rfl
  | setPace text =>
    show (page.setPace text).value.2.isRunning = false
    unfold setPace
    cases hr : page.runner with
    | none => exact hidle
    | some r =>
      cases Pace.parse? text with
      | none => exact hidle
      | some pace =>
        have hsession : r.session.isRunning = false := by simpa [isRunning, hr] using hidle
        exact hsession
  | completionDelay => exact isRunning_withRunner hidle fun r hr => hr
  | messageDuration => exact isRunning_withRunner hidle fun r hr => hr
  | isUnlocked id => exact hidle
  | complete id => exact hidle
  | storage => exact hidle
  | boot => exact hidle

/-- A request that begins the execution of a program leaves the next tick due at once. -/
theorem rearmed_answer_of_begins {page : Page} (hidle : page.isRunning = false) {request : Request}
    (hrun : (page.answer request).value.2.isRunning = true) :
    (page.answer request).value.2.rearmed = (page.answer request).value.2 := by
  by_cases hstart : ∃ text, request = .start text
  · obtain ⟨text, rfl⟩ := hstart
    cases hr : page.runner with
    | none =>
      simp only [answer, withRunner, hr] at hrun
      exact absurd (hidle.symm.trans hrun) Bool.false_ne_true
    | some r =>
      rw [answer_start hr] at hrun ⊢
      rcases r.start_cases text with ⟨refusal, h⟩ | ⟨program, s, -, -, h⟩
      · simp only [h] at hrun
        exact absurd (hidle.symm.trans hrun) Bool.false_ne_true
      · simp only [h]
        exact (rearmed_eq_self_iff rfl).mpr rfl
  · have hidle' := isRunning_answer hidle fun text heq => hstart ⟨text, heq⟩
    exact absurd (hidle'.symm.trans hrun) Bool.false_ne_true

/-- While nothing is being executed, it does not matter to any reply how the clock is set. -/
theorem replies_rearmed_of_idle {page : Page} (hidle : page.isRunning = false)
    (requests : List Request) :
    (page.rearmed.answerAll requests).value.1 = (page.answerAll requests).value.1 := by
  -- the pages differ in the clock until a program is started, which sets both clocks
  refine replies_eq (R := fun p q => p.rearmed = q.rearmed ∧ (p.isRunning = true → p = q))
    (A := fun _ => True) ?_ ⟨page.rearmed_rearmed, fun hrun => ?_⟩ fun _ _ => trivial
  · rintro p q request - ⟨hpq, hrunning⟩
    cases hp : p.isRunning with
    | true =>
      obtain rfl := hrunning hp
      exact ⟨rfl, rfl, fun _ => rfl⟩
    | false =>
      have hq : q.isRunning = false := by rw [← isRunning_eq_of_rearmed_eq hpq, hp]
      have hp' := SameButClock.answer p request fun _ _ => hp
      have hq' := SameButClock.answer q request fun _ _ => hq
      rw [hpq] at hp'
      have hpage := hp'.page.symm.trans hq'.page
      refine ⟨hp'.reply.symm.trans hq'.reply, hpage, fun hrun => ?_⟩
      have hrun' := isRunning_eq_of_rearmed_eq hpage
      rw [hrun] at hrun'
      rw [← rearmed_answer_of_begins hp hrun, hpage, rearmed_answer_of_begins hq hrun'.symm]
  · have hidle' := (isRunning_eq_of_rearmed_eq page.rearmed_rearmed).trans hidle
    exact absurd (hidle'.symm.trans hrun) Bool.false_ne_true

/-- **A start that starts nothing.** On a page with an open level, in whatever state: a text that
cannot be read is refused, and so is a program while another is being executed; the page stays as it
is, so no later request can tell. The empty program is accepted, and all that it does is set the clock
to the whole interval. This changes the page exactly if the clock showed another time. It changes no
reply before the next frame, and no reply at all if nothing was being executed. -/
theorem answer_start_vain {page : Page} {r : Runner} (hr : page.runner = some r) (text : String) :
    (Json.decode? Program.ofJson? text = none →
      (page.answer (.start text)).value = (.refused .unreadableProgram, page)) ∧
    (∀ program, Json.decode? Program.ofJson? text = some program → program ≠ [] →
      r.session.isRunning = true →
      (page.answer (.start text)).value = (.refused (.failure .runInProgress), page)) ∧
    (Json.decode? Program.ofJson? text = some [] →
      let after := { page with runner := some { r with pacer := ⟨r.pacer.interval, r.pacer.interval⟩ } }
      (page.answer (.start text)).value = (.done, after) ∧
      (after = page ↔ r.pacer.elapsed = r.pacer.interval) ∧
      (∀ requests, (∀ millis, .advance millis ∉ requests) →
        (after.answerAll requests).value.1 = (page.answerAll requests).value.1) ∧
      (r.session.isRunning = false →
        ∀ requests, (after.answerAll requests).value.1 = (page.answerAll requests).value.1)) := by
  refine ⟨fun hnone => ?_, fun program hprogram hne hrun => ?_, fun hempty => ?_⟩
  · rw [answer_start hr, Runner.start, hnone]
    rfl
  · have hstart : (r.session.start program).value = .error .runInProgress := by
      have hphase : r.session.run.phase = .running := by simpa [Session.isRunning] using hrun
      simp [Session.start, Run.start, hne, hphase]
      rfl
    rw [answer_start hr, Runner.start, hprogram]
    simp [hstart]
  · intro after
    have hafter : after = page.rearmed := (rearmed_eq hr).symm
    refine ⟨?_, ?_, ?_, ?_⟩
    · rw [answer_start hr, Runner.start, hempty]
      rfl
    · rw [hafter]
      exact rearmed_eq_self_iff hr
    · intro requests hframes
      rw [hafter]
      exact replies_rearmed_of_noFrame page hframes
    · intro hidle requests
      rw [hafter]
      exact replies_rearmed_of_idle (by simpa [isRunning, hr] using hidle) requests

/-- Between the first and the second stroke, with the clock just begun: an unreadable text and a
program in vain leave the page as it is. The empty program sets the clock, which no tick and no drain
can tell. -/
theorem answer_start_vain_firstStroke :
    let past : List Request :=
      [.openBuiltin "level1", .start "[\"forward\",\"forward\",\"forward\"]", .advance 0]
    let page := ((fresh (some ⟨[]⟩)).answerAll past).value.2
    ∃ r, page.runner = some r ∧ r.session.isRunning = true ∧
      (page.answer (.start "forward")).value = (.refused .unreadableProgram, page) ∧
      (page.answer (.start "[\"wait\"]")).value = (.refused (.failure .runInProgress), page) ∧
      (page.answer (.start "[]")).value.2 ≠ page ∧
      (((page.answer (.start "[]")).value.2.answerAll [.tick, .drain]).value.1 =
        (page.answerAll [.tick, .drain]).value.1) := by
  intro past page
  obtain ⟨r, hr⟩ : ∃ r, page.runner = some r := Option.isSome_iff_exists.mp (by decide +kernel)
  have hstate : page.runner.map (fun r =>
      (r.session.isRunning, decide (r.pacer.elapsed = r.pacer.interval))) = some (true, false) := by
    decide +kernel
  have hunread : Json.decode? Program.ofJson? "forward" = none := by decide +kernel
  have hwait : Json.decode? Program.ofJson? "[\"wait\"]" = some [.wait] := by decide +kernel
  have hempty : Json.decode? Program.ofJson? "[]" = some [] := by decide +kernel
  clear_value page
  rw [hr] at hstate
  obtain ⟨hrun, hclock⟩ := Prod.mk.inj (Option.some.inj hstate)
  obtain ⟨hsame, hiff, hreplies, -⟩ := (answer_start_vain hr "[]").2.2 hempty
  refine ⟨r, hr, hrun, (answer_start_vain hr "forward").1 hunread,
    (answer_start_vain hr "[\"wait\"]").2.1 [.wait] hwait (by decide) hrun, ?_, ?_⟩
  · rw [hsame, ne_eq, hiff]
    exact of_decide_eq_false hclock
  · rw [hsame]
    exact hreplies _ (by simp)

/-- The same page: a start of the empty program makes the second stroke fall due at once, in a frame
of no length that executes nothing otherwise. -/
theorem emptyStart_rearms_clock :
    let past : List Request :=
      [.openBuiltin "level1", .start "[\"forward\",\"forward\",\"forward\"]", .advance 0]
    let page := ((fresh (some ⟨[]⟩)).answerAll past).value.2
    let after := (page.answer (.start "[]")).value.2
    Json.decode? Program.ofJson? "[]" = some [] ∧ after ≠ page ∧
      (page.answer (.advance 0)).value.1 = .outcomes [] ∧
      (after.answer (.advance 0)).value.1 ≠ (page.answer (.advance 0)).value.1 := by
  decide +kernel

end Page

end Seahorse
