import Seahorse.Proofs.Requests

/-!
# Pacing

The clock of a runner decides when commands are executed, several in one frame if need be, and a
visitor may execute single commands in between, change the pace, drain events and try to start other
programs. None of this has a say in what happens. Put the drained events back, and the session on
the page is the one that plain ticks lead to, after as many ticks as outcomes have been handed out.
-/

namespace Seahorse

theorem Pacer.update_fst_le (p : Pacer) (dt : Scalar) : (p.update dt).1 ≤ maxTicks :=
  take_fst_le p.interval maxTicks (p.elapsed + Scalar.max dt 0)

/-! ## Events do not matter -/

/-- The run with events put back that were drained earlier. -/
def Run.restored (past : List Event) (run : Run) : Run :=
  { run with events := past ++ run.events }

/-- A tick neither looks at the events nor does anything to them but append its own. -/
theorem Run.tick_restored (level : Level) (past : List Event) (run : Run) :
    (run.restored past).tick level = ((run.tick level).1, (run.tick level).2.restored past) := by
  have hnext : (run.restored past).next? level = run.next? level := rfl
  unfold tick
  rw [hnext]
  cases run.next? level with
  | none => rfl
  | some step =>
    cases step with
    | ranOut => rfl
    | blocked c reason => simp [restored, outcome, after]
    | taken m => simp [restored, outcome, after]

namespace Session

/-- One tick at a time is a tick. -/
theorem ticks_one (s : Session) : (s.ticks 1).value = (s.tick.value.1.toList, s.ticked) := by
  rw [ticks, Logged.value_bind]
  show _ = (s.tick.value.1.toList, s.tick.value.2)
  rcases s.tick.value with ⟨outcome, t⟩
  cases outcome with
  | none => rfl
  | some o =>
    dsimp only
    split_ifs <;> rfl

/-- The session with events put back that were drained earlier. -/
def restored (past : List Event) (s : Session) : Session :=
  ⟨s.level, s.run.restored past⟩

section Restored

variable (past : List Event) (s : Session)

theorem restored_tick : (s.restored past).tick.value.1 = s.tick.value.1 := by
  show ((s.run.restored past).tick s.level).1 = (s.run.tick s.level).1
  rw [Run.tick_restored]

theorem restored_ticked : (s.restored past).ticked = s.ticked.restored past := by
  show (⟨s.level, ((s.run.restored past).tick s.level).2⟩ : Session) = _
  rw [Run.tick_restored]
  rfl

theorem restored_iterate (m : Nat) :
    ticked^[m] (s.restored past) = (ticked^[m] s).restored past := by
  induction m with
  | zero => rfl
  | succ m ih =>
    rw [Function.iterate_succ_apply', Function.iterate_succ_apply', ih, restored_ticked]

theorem restored_answers (m : Nat) : (s.restored past).answers m = s.answers m := by
  unfold answers
  refine List.map_congr_left fun i _ => ?_
  rw [restored_iterate, restored_tick]

/-- Draining moves the pending events to those drained. -/
theorem restored_drain : s.drain.2.restored (past ++ s.run.events) = s.restored past := by
  show (⟨s.level, { s.run with events := past ++ s.run.events ++ [] }⟩ : Session) = _
  rw [List.append_nil]
  rfl

end Restored

/-- Outcomes that answer the first ticks after a start are the first outcomes of the whole run. -/
theorem isPrefix_finish {level : Level} {program : Program} (ho : level.objective.IsPlayable)
    (hne : program ≠ []) {results : List Outcome}
    (h : results.map some = (begun level program).answers results.length) :
    results <+: (begun level program).finish.value.1 := by
  obtain ⟨k, hlt, hk⟩ := exists_isLeast_ends level hne
  -- the tick after the last one answers nothing, so there are not more outcomes than ticks
  have hle : results.length ≤ k + 1 := by
    by_contra hlong
    have hnone : ((begun level program).answers results.length)[k + 1]? = some none := by
      have hover : k + 1 < results.length := by omega
      simp only [answers, List.getElem?_map, List.getElem?_range hover, Option.map_some,
        tick_iterate_begun ho hne hk]
      rw [if_neg (by omega)]
    rw [← h, List.getElem?_map] at hnone
    cases hget : results[k + 1]? <;> simp [hget] at hnone
  have hresults : results = (List.range results.length).map (level.outcomeAt program) := by
    refine List.map_injective_iff.mpr (Option.some_injective Outcome) ?_
    rw [h, answers, List.map_map]
    refine List.map_congr_left fun i hi => ?_
    have hi := List.mem_range.mp hi
    rw [tick_iterate_begun ho hne hk, if_pos (by omega)]
    rfl
  have hrange : List.range results.length = (List.range (k + 1)).take results.length := by
    rw [List.take_range, Nat.min_eq_left hle]
  rw [finish_begun ho hne hk hlt, hresults, hrange]
  exact (List.take_prefix _ _).map _

end Session

/-! ## Requests within a run -/

/-- The outcomes that a reply hands out. -/
def Reply.results : Reply → List Outcome
  | .outcome o => o.toList
  | .outcomes os => os
  | _ => []

/-- The events that a reply hands out. -/
def Reply.drained : Reply → List Event
  | .events es => es
  | _ => []

/-- What a request within a run can do to the session, with the reply that goes with it. -/
inductive Effect (s : Session) : Reply → Session → Prop where
  /-- It makes some ticks, not more than fit in a frame and perhaps none. -/
  | ticks (reply : Reply) (count : Nat) (hcount : count ≤ Pacer.maxTicks)
      (hresults : reply.results = (s.ticks count).value.1) (hdrained : reply.drained = []) :
      Effect s reply (s.ticks count).value.2
  /-- It drains the events. -/
  | drain : Effect s (.events s.run.events) s.drain.2

namespace Effect

theorem nothing (s : Session) (reply : Reply) (hresults : reply.results = [])
    (hdrained : reply.drained = []) : Effect s reply s :=
  .ticks reply 0 (Nat.zero_le _) hresults hdrained

/-- However a request makes its ticks, they are the plain ones: with the drained events put back,
the session is as many ticks further as the reply has outcomes. -/
theorem restored_eq {s t : Session} {reply : Reply} (h : Effect s reply t) (past : List Event) :
    t.restored (past ++ reply.drained) = Session.ticked^[reply.results.length] (s.restored past) ∧
    reply.results.map some = (s.restored past).answers reply.results.length ∧
    reply.results.length ≤ Pacer.maxTicks ∧
    ∀ o ∈ reply.results.dropLast, o.isContinued = true := by
  cases h with
  | ticks _ count hcount hresults hdrained =>
    obtain ⟨m, hm, hstate, hanswers, hgo⟩ := s.ticks_eq_iterate count
    have hlength : reply.results.length = m := by
      have := congrArg List.length hanswers
      rw [List.length_map, ← hresults] at this
      simpa [Session.answers] using this
    rw [hlength, hdrained, List.append_nil, Session.restored_iterate, Session.restored_answers, hstate,
      hresults]
    exact ⟨rfl, hanswers, hm.trans hcount, hgo⟩
  | drain => exact ⟨Session.restored_drain past s, rfl, Nat.zero_le _, nofun⟩

end Effect

/-- Whether starting a text starts nothing: it cannot be read, holds no command, or comes while a
program is being executed. -/
def Runner.startsNothing (text : String) (r : Runner) : Bool :=
  match Json.decode? Program.ofJson? text with
  | none => true
  | some program => program.isEmpty || r.session.isRunning

namespace Page

/-- Whether a request leaves the run of the open level in place: it opens no level, does not go back
to the start and starts no other program. -/
def keepsRun (page : Page) : Request → Bool
  | .openBuiltin _ | .openText _ | .reset => false
  | .start text => page.runner.all (Runner.startsNothing text)
  | _ => true

/-- Whether the requests all belong to the run of the open level. -/
def keepsRunAll (page : Page) : List Request → Bool
  | [] => true
  | request :: requests =>
    page.keepsRun request && (page.answer request).value.2.keepsRunAll requests

/-- What a page answered, and is from then on, comes of an effect on the session of a runner. -/
def HasEffect (r : Runner) (answer : Reply × Page) : Prop :=
  ∃ r', answer.2.runner = some r' ∧ Effect r.session answer.1 r'.session

section Within

variable {page : Page} {r : Runner}

/-- A start that starts nothing leaves the session alone. It may set the clock. -/
theorem effect_start (hr : page.runner = some r) {text : String}
    (h : r.startsNothing text = true) :
    HasEffect r (page.answer (.start text)).value := by
  rw [answer_start hr]
  rcases r.start_cases text with ⟨refusal, hstart⟩ | ⟨program, s, hprogram, hs, hstart⟩ <;>
    rw [hstart]
  · exact ⟨r, hr, .nothing _ _ rfl rfl⟩
  · have hkeeps : r.session.keepsRun (.start program) = true := by
      unfold Runner.startsNothing at h
      rw [hprogram] at h
      exact h
    obtain rfl : s = r.session := by
      have hperform := Session.perform_start_of_keepsRun hkeeps
      simp only [Session.perform, hs] at hperform
      exact hperform
    exact ⟨_, rfl, .nothing _ _ rfl rfl⟩

theorem effect_tick (hr : page.runner = some r) :
    HasEffect r (page.answer .tick).value := by
  have hone := r.session.ticks_one
  rw [answer_tick hr]
  refine ⟨_, rfl, ?_⟩
  have heffect := Effect.ticks (s := r.session) (.outcome r.session.tick.value.1) 1 (by decide)
    (by rw [hone]; rfl) rfl
  rw [hone] at heffect
  exact heffect

theorem effect_advance (hr : page.runner = some r) (millis : Double) :
    HasEffect r (page.answer (.advance millis)).value := by
  cases hrun : r.session.isRunning with
  | true =>
    rw [answer_advance_of_running hr hrun]
    exact ⟨_, rfl, .ticks _ _ (r.pacer.update_fst_le _) rfl rfl⟩
  | false =>
    rw [answer_advance_of_not_running hr hrun]
    exact ⟨r, hr, .nothing _ _ rfl rfl⟩

theorem effect_setPace (hr : page.runner = some r) (text : String) :
    HasEffect r (page.answer (.setPace text)).value := by
  show HasEffect r (page.setPace text).value
  unfold Page.setPace
  rw [hr]
  cases Pace.parse? text with
  | none => exact ⟨r, hr, .nothing _ _ rfl rfl⟩
  | some pace => exact ⟨_, rfl, .nothing _ _ rfl rfl⟩

/-- A question leaves the open level as it is. -/
theorem effect_ask (hr : page.runner = some r) (answer : Runner → Reply)
    (hresults : (answer r).results = []) (hdrained : (answer r).drained = []) :
    HasEffect r (page.ask answer).value := by
  unfold ask
  rw [withRunner_value hr]
  exact ⟨r, rfl, .nothing _ _ hresults hdrained⟩

/-- **Step.** A request within a run makes plain ticks or drains the events. -/
theorem effect_answer (hr : page.runner = some r) {request : Request}
    (hkeeps : page.keepsRun request = true) :
    HasEffect r (page.answer request).value := by
  cases request with
  | openBuiltin id => cases hkeeps
  | openText text => cases hkeeps
  | reset => cases hkeeps
  | start text =>
    refine effect_start hr ?_
    simpa [keepsRun, hr] using hkeeps
  | tick => exact effect_tick hr
  | advance millis => exact effect_advance hr millis
  | drain =>
    rw [answer_drain hr]
    exact ⟨_, rfl, .drain⟩
  | setPace text => exact effect_setPace hr text
  | pose => exact effect_ask hr _ rfl rfl
  | captured => exact effect_ask hr _ rfl rfl
  | isRunning => exact effect_ask hr _ rfl rfl
  | completionDelay => exact effect_ask hr _ rfl rfl
  | messageDuration => exact effect_ask hr _ rfl rfl
  | isUnlocked id => exact ⟨r, hr, .nothing _ _ rfl rfl⟩
  | complete id => exact ⟨r, hr, .nothing _ _ rfl rfl⟩
  | storage => exact ⟨r, hr, .nothing _ _ rfl rfl⟩
  | boot => exact ⟨r, hr, .nothing _ _ rfl rfl⟩

end Within

/-- **Run.** Within a run, the outcomes handed out are the answers to plain ticks, and the session
with the drained events put back is the one that these ticks lead to. -/
theorem answerAll_restored {page : Page} {r : Runner} (hr : page.runner = some r)
    {requests : List Request} (hkeeps : page.keepsRunAll requests = true) (past : List Event) :
    let replies := (page.answerAll requests).value.1
    let results := replies.flatMap Reply.results
    ∃ r', (page.answerAll requests).value.2.runner = some r' ∧
      r'.session.restored (past ++ replies.flatMap Reply.drained) =
        Session.ticked^[results.length] (r.session.restored past) ∧
      results.map some = (r.session.restored past).answers results.length ∧
      ∀ reply ∈ replies, reply.results.length ≤ Pacer.maxTicks ∧
        ∀ o ∈ reply.results.dropLast, o.isContinued = true := by
  induction requests generalizing page r past with
  | nil => exact ⟨r, hr, by simp [answerAll], rfl, nofun⟩
  | cons request requests ih =>
    intro replies results
    obtain ⟨hkeep, hrest⟩ := Bool.and_eq_true_iff.mp hkeeps
    obtain ⟨r₁, hr₁, heffect⟩ := effect_answer hr hkeep
    obtain ⟨hstate, hanswers, hcount, hgo⟩ := heffect.restored_eq past
    obtain ⟨r', hr', hstate', hanswers', hall⟩ :=
      ih hr₁ hrest (past ++ (page.answer request).value.1.drained)
    have hreplies : replies = (page.answer request).value.1 ::
        ((page.answer request).value.2.answerAll requests).value.1 := rfl
    have hresults : results = (page.answer request).value.1.results ++
        ((page.answer request).value.2.answerAll requests).value.1.flatMap Reply.results := rfl
    refine ⟨r', hr', ?_, ?_, ?_⟩
    · rw [hreplies, List.flatMap_cons, ← List.append_assoc, hstate', hstate, hresults,
        List.length_append, Nat.add_comm, Function.iterate_add_apply]
    · rw [hresults, List.map_append, List.length_append, Session.answers_add, hanswers, hanswers',
        hstate]
    · rw [hreplies]
      intro reply hreply
      rcases List.mem_cons.mp hreply with rfl | hreply
      · exact ⟨hcount, hgo⟩
      · exact hall reply hreply

/-- A program that is not empty is started whenever nothing is being executed. -/
theorem answer_start_of_idle {page : Page} {r : Runner} (hr : page.runner = some r)
    (hidle : r.session.run.phase ≠ .running) {text : String} {program : Program}
    (htext : Json.decode? Program.ofJson? text = some program) (hne : program ≠ []) :
    (page.answer (.start text)).value.1 = .done ∧
    ∃ r', (page.answer (.start text)).value.2.runner = some r' ∧
      r'.session = Session.begun r.session.level program := by
  have hstart : (r.start text).value = .ok
      { r with session := Session.begun r.session.level program, pacer := r.pacer.reset } := by
    unfold Runner.start
    rw [htext]
    simp [Session.start_eq_ok hne hidle]
  rw [answer_start hr, hstart]
  exact ⟨rfl, _, rfl, rfl⟩

/-- **Pacing changes when something happens, never what.** Let a level be open on a page, after any
requests and with any stored settings, and a program be started. Then let there be any requests that
belong to its run: frames of any length, ticks, changes of pace, drained events, starts that start
nothing. The outcomes handed out are the first ones of ticking a session of one's own on the same
level with the same program, one answer for each tick. With the drained events put back, the session
on the page is the one these ticks lead to. No frame hands out more outcomes than fit in it, nor any
behind one that ends the run; and once the run is over, a frame changes nothing, the clock
included. -/
theorem pacing_of_run (storage : Option Storage) (past : List Request) {r : Runner}
    (hopen : ((fresh storage).answerAll past).value.2.runner = some r)
    (hidle : r.session.run.phase ≠ .running) {text : String} {program : Program}
    (htext : Json.decode? Program.ofJson? text = some program) (hne : program ≠ [])
    (requests : List Request) :
    let page := ((fresh storage).answerAll past).value.2
    let started := (page.answer (.start text)).value
    let replies := (started.2.answerAll requests).value.1
    let last := (started.2.answerAll requests).value.2
    let results := replies.flatMap Reply.results
    started.1 = .done ∧
    (started.2.keepsRunAll requests = true →
      ∃ s t r', (Session.prepare r.session.level).value = .ok s ∧ (s.start program).value = .ok t ∧
        last.runner = some r' ∧
        results <+: t.finish.value.1 ∧
        results.map some = t.answers results.length ∧
        r'.session.restored (replies.flatMap Reply.drained) = Session.ticked^[results.length] t ∧
        (∀ outcomes, .outcomes outcomes ∈ replies →
          outcomes.length ≤ Pacer.maxTicks ∧ ∀ o ∈ outcomes.dropLast, o.isContinued = true) ∧
        (r'.session.run.phase ≠ .running →
          ∀ millis, (last.answer (.advance millis)).value = (.outcomes [], last))) := by
  intro page started replies last results
  have hlevel : r.session.level.validate = .ok () := playable_answerAll storage past r hopen
  have ho : r.session.level.objective.IsPlayable := Level.objective_isPlayable hlevel
  obtain ⟨hdone, r₁, hr₁, hsession⟩ := answer_start_of_idle hopen hidle htext hne
  refine ⟨hdone, fun hkeeps => ?_⟩
  obtain ⟨r', hr', hstate, hanswers, hall⟩ := answerAll_restored hr₁ hkeeps []
  have hbegun : r₁.session.restored [] = Session.begun r.session.level program := hsession
  rw [hbegun] at hstate hanswers
  have hstart : ((⟨r.session.level, Run.fresh r.session.level⟩ : Session).start program).value =
      .ok (Session.begun r.session.level program) := Session.start_eq_ok hne nofun
  refine ⟨_, _, r', Session.prepare_eq_ok_iff.mpr ⟨hlevel, rfl⟩, hstart, hr',
    Session.isPrefix_finish ho hne hanswers, hanswers, hstate, ?_, ?_⟩
  · intro outcomes houtcomes
    exact hall _ houtcomes
  · intro hover millis
    exact answer_advance_of_not_running hr' (by simpa [Session.isRunning] using hover) millis

/-- On the walkway at a fast pace: frames of negative and of infinite length and one whose length is
not a number, a tick, a change of pace, a drain, and starts that start nothing. The five outcomes are
those of plain ticks. -/
theorem pacing_of_run_theBend :
    let storage : Option Storage := some ⟨[(Settings.storageKey, "\x7b\"pacing\":\"Fast\"\x7d")]⟩
    let past : List Request := [.openBuiltin "level2"]
    let text := "[\"forward\",\"wait\",\"forward\",\"turnRight\",\"forward\"]"
    let program : Program := [.forward, .wait, .forward, .turnRight, .forward]
    let requests : List Request :=
      [.advance (0 / 0), .tick, .setPace "slow", .start "[]", .start "[\"wait\"]", .drain,
        .advance (-5), .start "wait", .advance (1 / 0)]
    let page := ((fresh storage).answerAll past).value.2
    let started := (page.answer (.start text)).value
    let results := (started.2.answerAll requests).value.1.flatMap Reply.results
    ∃ r, page.runner = some r ∧ r.session.run.phase ≠ .running ∧
      Json.decode? Program.ofJson? text = some program ∧ program ≠ [] ∧
      started.2.keepsRunAll requests = true ∧ results.length = 5 ∧
      ∃ s t, (Session.prepare r.session.level).value = .ok s ∧ (s.start program).value = .ok t ∧
        results <+: t.finish.value.1 ∧ results.map some = t.answers results.length := by
  intro storage past text program requests page started results
  obtain ⟨r, hr⟩ : ∃ r, page.runner = some r := Option.isSome_iff_exists.mp (by decide +kernel)
  have hidle : r.session.run.phase ≠ .running := by
    have hphase : page.runner.map (·.session.run.phase) = some .idle := by decide +kernel
    rw [hr] at hphase
    have hphase : r.session.run.phase = .idle := Option.some.inj hphase
    rw [hphase]
    decide
  have htext : Json.decode? Program.ofJson? text = some program := by decide +kernel
  have hne : program ≠ [] := by decide
  obtain ⟨hkeeps, hlength⟩ : started.2.keepsRunAll requests = true ∧ results.length = 5 := by
    decide +kernel
  -- what has been computed is known; nothing below looks inside the requests
  clear_value storage past text program requests
  obtain ⟨-, hrun⟩ := pacing_of_run storage past hr hidle htext hne requests
  obtain ⟨s, t, -, hs, ht, -, hprefix, hanswers, -⟩ := hrun hkeeps
  exact ⟨r, hr, hidle, htext, hne, hkeeps, hlength, s, t, hs, ht, hprefix, hanswers⟩

end Page

end Seahorse
