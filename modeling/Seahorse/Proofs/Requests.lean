import Seahorse.Page
import Seahorse.Proofs.Outcomes

/-!
# What a visitor does with a page

A visitor sends requests to a page, in any order. `preserved` is the induction that statements about
all sequences of requests rest on. The first of them is that an open level is one that can be played:
a level is checked when it is opened, and no request changes the level of a runner.
-/

namespace Seahorse

theorem Session.level_of_start {s t : Session} {program : Program}
    (h : (s.start program).value = .ok t) : t.level = s.level := by
  have hlevel := perform_level s (.start program)
  simp only [perform, h] at hlevel
  exact hlevel

theorem Session.ticks_level (count : Nat) (s : Session) :
    (s.ticks count).value.2.level = s.level := by
  have hiterate : ∀ m, (ticked^[m] s).level = s.level := by
    intro m
    induction m with
    | zero => rfl
    | succ m ih => rw [Function.iterate_succ_apply', ticked_level, ih]
  obtain ⟨m, -, hstate, -⟩ := s.ticks_eq_iterate count
  rw [hstate, hiterate]

namespace Runner

theorem ofLevel_eq_ok {level : Level} {storage : Option Storage} {r : Runner}
    (h : (ofLevel level storage).value = .ok r) :
    level.validate = .ok () ∧ r.session = ⟨level, Run.fresh level⟩ := by
  simp only [ofLevel, Logged.value_bind] at h
  cases hp : (Session.prepare level).value with
  | error f => simp [hp] at h
  | ok s =>
    rw [hp] at h
    obtain ⟨hvalid, rfl⟩ := Session.prepare_eq_ok_iff.mp hp
    obtain rfl := Except.ok.inj h
    exact ⟨hvalid, rfl⟩

theorem exists_ofLevel_of_openBuiltin {id : String} {storage : Option Storage} {r : Runner}
    (h : (openBuiltin id storage).value = .ok r) :
    ∃ level, (ofLevel level storage).value = .ok r := by
  unfold openBuiltin at h
  cases hlevel : Level.builtin id with
  | error f => simp [hlevel] at h
  | ok level =>
    rw [hlevel] at h
    exact ⟨level, h⟩

theorem exists_ofLevel_of_openText {text : String} {storage : Option Storage} {r : Runner}
    (h : (openText text storage).value = .ok r) :
    ∃ level, (ofLevel level storage).value = .ok r := by
  simp only [openText, Logged.value_bind] at h
  cases hlevel : (Level.load text).value with
  | error f => simp [hlevel] at h
  | ok level =>
    rw [hlevel] at h
    exact ⟨level, h⟩

/-- A runner that has just been opened is on a level that can be played, before its first program. -/
theorem openBuiltin_eq_ok {id : String} {storage : Option Storage} {r : Runner}
    (h : (openBuiltin id storage).value = .ok r) :
    ∃ level, level.validate = .ok () ∧ r.session = ⟨level, Run.fresh level⟩ := by
  obtain ⟨level, hlevel⟩ := exists_ofLevel_of_openBuiltin h
  exact ⟨level, ofLevel_eq_ok hlevel⟩

theorem openText_eq_ok {text : String} {storage : Option Storage} {r : Runner}
    (h : (openText text storage).value = .ok r) :
    ∃ level, level.validate = .ok () ∧ r.session = ⟨level, Run.fresh level⟩ := by
  obtain ⟨level, hlevel⟩ := exists_ofLevel_of_openText h
  exact ⟨level, ofLevel_eq_ok hlevel⟩

/-- All that starting a text can do: refuse, or hand its program to the session. -/
theorem start_cases (text : String) (r : Runner) :
    (∃ refusal, (r.start text).value = .error refusal) ∨
    ∃ program s, Json.decode? Program.ofJson? text = some program ∧
      (r.session.start program).value = .ok s ∧
      (r.start text).value = .ok { r with session := s, pacer := r.pacer.reset } := by
  unfold start
  cases Json.decode? Program.ofJson? text with
  | none => exact .inl ⟨_, rfl⟩
  | some program =>
    cases hs : (r.session.start program).value with
    | error f =>
      left
      exact ⟨.failure f, by simp [hs]⟩
    | ok s =>
      right
      exact ⟨program, s, rfl, hs, by simp [hs]⟩

end Runner

namespace Page

/-- What holds at first and is kept by every request holds after all requests. -/
theorem preserved {I : Page → Prop} (hstep : ∀ page request, I page → I (page.answer request).value.2)
    {page : Page} (h : I page) (requests : List Request) :
    I (page.answerAll requests).value.2 := by
  induction requests generalizing page with
  | nil => exact h
  | cons request requests ih => exact ih (hstep page request h)

theorem answerAll_append (page : Page) (first rest : List Request) :
    (page.answerAll (first ++ rest)).value =
      let (replies, page) := (page.answerAll first).value
      (replies ++ (page.answerAll rest).value.1, (page.answerAll rest).value.2) := by
  induction first generalizing page with
  | nil => rfl
  | cons request first ih => simp [answerAll, ih]

/-- A request is replied to by the page that the requests before it have left. -/
theorem getElem?_answerAll (page : Page) (requests : List Request) (i : Nat) :
    (page.answerAll requests).value.1[i]? =
      requests[i]?.map fun request =>
        ((page.answerAll (requests.take i)).value.2.answer request).value.1 := by
  induction requests generalizing page i with
  | nil => rfl
  | cons request requests ih =>
    cases i with
    | zero => rfl
    | succ i => exact ih (page.answer request).value.2 i

/-- Pages that reply the same to a request, and are alike afterwards as they were before, reply the
same to all requests. -/
theorem replies_eq {R : Page → Page → Prop} {A : Request → Prop}
    (hstep : ∀ p q request, A request → R p q →
      (p.answer request).value.1 = (q.answer request).value.1 ∧
        R (p.answer request).value.2 (q.answer request).value.2)
    {p q : Page} (h : R p q) {requests : List Request} (hall : ∀ r ∈ requests, A r) :
    (p.answerAll requests).value.1 = (q.answerAll requests).value.1 := by
  induction requests generalizing p q with
  | nil => rfl
  | cons request requests ih =>
    obtain ⟨hreply, hnext⟩ := hstep p q request (hall request (by simp)) h
    have hrest := ih hnext fun r hr => hall r (by simp [hr])
    simp only [answerAll, Logged.value_bind, Logged.value_pure, hreply, hrest]

/-! ## Requests to the open level -/

section Answer

variable {page : Page} {r : Runner}

theorem withRunner_value (hr : page.runner = some r) (act : Runner → Logged (Reply × Runner)) :
    (page.withRunner act).value =
      ((act r).value.1, { page with runner := some (act r).value.2 }) := by
  unfold withRunner
  rw [hr]
  rfl

theorem answer_tick (hr : page.runner = some r) :
    (page.answer .tick).value =
      (.outcome r.session.tick.value.1,
        { page with runner := some { r with session := r.session.tick.value.2 } }) :=
  withRunner_value hr _

theorem answer_drain (hr : page.runner = some r) :
    (page.answer .drain).value =
      (.events r.session.run.events,
        { page with runner := some { r with session := r.session.drain.2 } }) :=
  withRunner_value hr _

theorem answer_advance_of_running (hr : page.runner = some r) (hrun : r.session.isRunning = true)
    (millis : Double) :
    (page.answer (.advance millis)).value =
      let update := r.pacer.update (Runner.secondsOfMillis millis)
      (.outcomes (r.session.ticks update.1).value.1,
        { page with
          runner := some
            { r with session := (r.session.ticks update.1).value.2, pacer := update.2 } }) := by
  refine (withRunner_value hr _).trans ?_
  simp only [Runner.advance, hrun, if_true]
  rfl

/-- While nothing is being executed, a frame changes nothing on the page. -/
theorem answer_advance_of_not_running (hr : page.runner = some r)
    (hrun : r.session.isRunning = false) (millis : Double) :
    (page.answer (.advance millis)).value = (.outcomes [], page) := by
  refine (withRunner_value hr _).trans ?_
  simp only [Runner.advance, hrun]
  show (Reply.outcomes [], { page with runner := some r }) = _
  rw [← hr]

theorem answer_start (hr : page.runner = some r) (text : String) :
    (page.answer (.start text)).value =
      match (r.start text).value with
      | .ok r' => (.done, { page with runner := some r' })
      | .error refusal => (.refused refusal, page) := by
  refine (withRunner_value hr _).trans ?_
  rw [Logged.value_bind]
  cases (r.start text).value with
  | ok r' => rfl
  | error refusal =>
    show (Reply.refused refusal, { page with runner := some r }) = _
    rw [← hr]

end Answer

/-! ## The level of the open runner -/

/-- The open level, if there is one, can be played. -/
def Playable (page : Page) : Prop :=
  ∀ r, page.runner = some r → r.session.level.validate = .ok ()

section Playable

variable {page : Page}

/-- A request that leaves the level of the runner alone leaves it playable. -/
theorem Playable.withRunner (h : page.Playable) {act : Runner → Logged (Reply × Runner)}
    (hact : ∀ r, (act r).value.2.session.level = r.session.level) :
    (page.withRunner act).value.2.Playable := by
  intro r' hr'
  cases hr : page.runner with
  | none => simp [Page.withRunner, hr] at hr'
  | some r =>
    rw [withRunner_value hr] at hr'
    obtain rfl := Option.some.inj hr'
    rw [hact]
    exact h r hr

theorem Playable.install (h : page.Playable) {opened : Except Refusal Runner}
    (hopened : ∀ r, opened = .ok r → r.session.level.validate = .ok ()) :
    (page.install opened).2.Playable := by
  cases opened with
  | error refusal => exact h
  | ok r =>
    intro r' hr'
    obtain rfl := Option.some.inj hr'
    exact hopened r rfl

theorem Playable.setPace (h : page.Playable) (text : String) :
    (page.setPace text).value.2.Playable := by
  unfold Page.setPace
  cases hr : page.runner with
  | none => exact h
  | some r =>
    cases Pace.parse? text with
    | none => exact h
    | some pace =>
      intro r' hr'
      obtain rfl := Option.some.inj hr'
      exact h r hr

/-- **Step.** Every request keeps the open level playable. -/
theorem Playable.answer (h : page.Playable) (request : Request) :
    (page.answer request).value.2.Playable := by
  cases request with
  | openBuiltin id =>
    refine h.install fun r hr => ?_
    obtain ⟨level, hvalid, hsession⟩ := Runner.openBuiltin_eq_ok hr
    rwa [hsession]
  | openText text =>
    refine h.install fun r hr => ?_
    obtain ⟨level, hvalid, hsession⟩ := Runner.openText_eq_ok hr
    rwa [hsession]
  | start text =>
    refine h.withRunner fun r => ?_
    rw [Logged.value_bind]
    rcases r.start_cases text with ⟨refusal, hstart⟩ | ⟨program, s, -, hs, hstart⟩ <;> rw [hstart]
    · rfl
    · exact Session.level_of_start hs
  | tick => exact h.withRunner fun r => rfl
  | advance millis =>
    refine h.withRunner fun r => ?_
    cases hrun : r.session.isRunning with
    | true =>
      simp only [Runner.advance, hrun, if_true]
      exact Session.ticks_level _ r.session
    | false =>
      simp only [Runner.advance, hrun]
      rfl
  | drain => exact h.withRunner fun r => rfl
  | pose => exact h.withRunner fun r => rfl
  | captured => exact h.withRunner fun r => rfl
  | isRunning => exact h.withRunner fun r => rfl
  | reset => exact h.withRunner fun r => rfl
  | setPace text => exact h.setPace text
  | completionDelay => exact h.withRunner fun r => rfl
  | messageDuration => exact h.withRunner fun r => rfl
  | isUnlocked id => exact h
  | complete id => exact h
  | storage => exact h
  | boot => exact h

/-- **Run.** Whatever is asked of a page, the level that is open can be played. -/
theorem playable_answerAll (storage : Option Storage) (requests : List Request) :
    ((fresh storage).answerAll requests).value.2.Playable := by
  refine preserved (I := Playable) (fun page request h => h.answer request) ?_ requests
  intro r hr
  cases hr

end Playable

end Page

end Seahorse
