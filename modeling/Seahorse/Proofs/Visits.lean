import Seahorse.Page.Visit
import Seahorse.Proofs.Footprint
import Seahorse.Proofs.Pacing
import Seahorse.Proofs.StoredSettings

/-!
# Levels that are open at the same time

Open levels share a storage and nothing else. So a level answers the requests that it deals with itself
as it would on a page of its own, whatever is asked of the other levels in between
(`Visit.answerAll_runner`), and what is said about one open level on a page holds of each of several.
What is said about the storage on a page holds of a visit too, since a call does to the storage what
its request does on a page. A visitor who keeps to the level opened last cannot tell a visit from a page
(`Visit.answerAllLast_eq`).
-/

namespace Seahorse

/-- Whether the open level deals with a request itself. The other requests open a level, or are about
the page. -/
def Request.isToLevel : Request → Bool
  | .openBuiltin _ | .openText _ | .isUnlocked _ | .complete _ | .storage | .boot => false
  | _ => true

theorem Request.opens_iff {request : Request} :
    request.opens = true ↔
      (∃ id, request = .openBuiltin id) ∨ ∃ text, request = .openText text := by
  cases request <;> simp [opens]

theorem Request.opens_of_isToLevel {request : Request} (h : request.isToLevel = true) :
    request.opens = false := by
  cases request <;> first | rfl | cases h

/-- Whether a call is one that the level at a place deals with. -/
def Call.isTo (place : Nat) (call : Call) : Bool :=
  call.place = place && call.request.isToLevel

theorem Call.isTo_self (place : Nat) (request : Request) :
    (Call.mk place request).isTo place = request.isToLevel := by
  simp [isTo]

namespace Page

section Runner

variable {r : Runner} {request : Request}

/-- What an open level does with a request of its own, it does whatever else there is on the page. -/
theorem exists_answer_of_isToLevel (r : Runner) (h : request.isToLevel = true) :
    ∃ reply r', ∀ page : Page, page.runner = some r →
      (page.answer request).value.1 = reply ∧ (page.answer request).value.2.runner = some r' := by
  have hact (act : Runner → Logged (Reply × Runner)) :
      ∃ reply r', ∀ page : Page, page.runner = some r →
        (page.withRunner act).value.1 = reply ∧ (page.withRunner act).value.2.runner = some r' := by
    refine ⟨(act r).value.1, (act r).value.2, fun page hr => ?_⟩
    rw [withRunner_value hr]
    exact ⟨rfl, rfl⟩
  cases request with
  | openBuiltin id => cases h
  | openText text => cases h
  | start text => exact hact _
  | tick => exact hact _
  | advance millis => exact hact _
  | drain => exact hact _
  | pose => exact hact _
  | captured => exact hact _
  | isRunning => exact hact _
  | reset => exact hact _
  | setPace text =>
    cases hpace : Pace.parse? text with
    | none =>
      refine ⟨.refused (.unknownPace text), r, fun page hr => ?_⟩
      simp [answer, setPace, hr, hpace]
    | some pace =>
      let settings := { r.settings with pace }
      refine ⟨.done, { r with settings, pacer := Pacer.ofInterval settings.interval },
        fun page hr => ?_⟩
      simp only [answer, setPace, hr, hpace]
      exact ⟨rfl, rfl⟩
  | completionDelay => exact hact _
  | messageDuration => exact hact _
  | isUnlocked id => cases h
  | complete c => cases h
  | storage => cases h
  | boot => cases h

/-- A request about the page leaves the open level as it is. -/
theorem runner_answer_of_not_isToLevel (page : Page) (hopens : request.opens = false)
    (h : request.isToLevel = false) : (page.answer request).value.2.runner = page.runner := by
  cases request with
  | isUnlocked id => rfl
  | complete c => rfl
  | storage => rfl
  | boot => rfl
  | openBuiltin id => cases hopens
  | openText text => cases hopens
  | _ => cases h

/-- Where no level is open, none is open after a request that opens none. -/
theorem runner_answer_of_none {page : Page} (hr : page.runner = none) (hopens : request.opens = false) :
    (page.answer request).value.2.runner = none := by
  have hact (act : Runner → Logged (Reply × Runner)) :
      (page.withRunner act).value.2.runner = none := by
    simp [withRunner, hr]
  cases request with
  | openBuiltin id => cases hopens
  | openText text => cases hopens
  | setPace text => simp [answer, setPace, hr]
  | isUnlocked id => exact hr
  | complete c => exact hr
  | storage => exact hr
  | boot => exact hr
  | _ => exact hact _

/-- Only opening a level changes whether one is open. -/
theorem isSome_runner_answer (page : Page) (hopens : request.opens = false) :
    (page.answer request).value.2.runner.isSome = page.runner.isSome := by
  cases hr : page.runner with
  | none => rw [runner_answer_of_none hr hopens]
  | some r =>
    cases h : request.isToLevel with
    | true =>
      obtain ⟨reply, r', hanswer⟩ := exists_answer_of_isToLevel r h
      rw [(hanswer page hr).2]
      rfl
    | false => rw [runner_answer_of_not_isToLevel page hopens h, hr]

end Runner

end Page

namespace Visit

/-! ## Places -/

section Put

variable {runners : List Runner} {place i : Nat}

theorem getElem?_put_of_ne (hne : i ≠ place) (hi : i < runners.length) (runner : Option Runner) :
    (put place runners runner)[i]? = runners[i]? := by
  cases runner with
  | none => rfl
  | some r =>
    unfold put
    split_ifs
    · exact List.getElem?_set_ne (Ne.symm hne)
    · exact List.getElem?_append_left hi

theorem getElem?_put_self (h : place < runners.length) (r : Runner) :
    (put place runners (some r))[place]? = some r := by
  rw [put, if_pos h, List.getElem?_set_self h]

theorem mem_put {r : Runner} {runner : Option Runner} (h : r ∈ put place runners runner) :
    r ∈ runners ∨ runner = some r := by
  cases runner with
  | none => exact .inl h
  | some r' =>
    unfold put at h
    split_ifs at h
    · exact (List.mem_or_eq_of_mem_set h).imp_right fun heq => congrArg some heq.symm
    · rcases List.mem_append.mp h with h | h
      · exact .inl h
      · exact .inr (congrArg some (List.mem_singleton.mp h).symm)

end Put

/-! ## Open levels do not disturb each other -/

section Independence

variable {v : Visit} {i : Nat} {r : Runner} {call : Call}

theorem placeOf_of_opens (h : call.request.opens = true) : v.placeOf call = v.runners.length :=
  if_pos h

theorem placeOf_of_not_opens (h : call.request.opens = false) : v.placeOf call = call.place :=
  if_neg (by simp [h])

/-- A call is answered on the page that the level at its place sees. -/
theorem answer_at {place : Nat} (h : v.placeOf call = place) :
    (v.answer call).value =
      let (reply, page) := ((v.pageAt place).answer call.request).value
      (reply, v.leave place page) := by
  subst h
  rfl

/-- **Frame.** A call that a level does not deal with leaves it as it is. -/
theorem runner_answer_of_not_isTo (hr : v.runners[i]? = some r) (h : call.isTo i = false) :
    (v.answer call).value.2.runners[i]? = some r := by
  obtain ⟨hi, -⟩ := List.getElem?_eq_some_iff.mp hr
  cases hopens : call.request.opens with
  | true =>
    rw [answer_at (placeOf_of_opens hopens)]
    exact (getElem?_put_of_ne hi.ne hi _).trans hr
  | false =>
    rw [answer_at (placeOf_of_not_opens hopens)]
    by_cases hplace : i = call.place
    · -- the level at this place has been asked about the page
      have hshared : call.request.isToLevel = false := by
        simpa [Call.isTo, ← hplace] using h
      show (put call.place v.runners _)[i]? = some r
      rw [Page.runner_answer_of_not_isToLevel _ hopens hshared, ← hplace]
      show (put i v.runners v.runners[i]?)[i]? = some r
      rw [hr, getElem?_put_self hi]
    · exact (getElem?_put_of_ne hplace hi _).trans hr

/-- **Step.** A call that a level deals with is answered as on any page with this level. -/
theorem runner_answer_of_isTo (hr : v.runners[i]? = some r) (h : call.isTo i = true) {page : Page}
    (hpage : page.runner = some r) :
    (v.answer call).value.1 = (page.answer call.request).value.1 ∧
      ∃ r', (v.answer call).value.2.runners[i]? = some r' ∧
        (page.answer call.request).value.2.runner = some r' := by
  obtain ⟨hi, -⟩ := List.getElem?_eq_some_iff.mp hr
  obtain ⟨rfl, hlevel⟩ : call.place = i ∧ call.request.isToLevel = true := by
    simpa [Call.isTo] using h
  obtain ⟨reply, r', hanswer⟩ := Page.exists_answer_of_isToLevel r hlevel
  obtain ⟨hreply, hrunner⟩ := hanswer (v.pageAt call.place) hr
  obtain ⟨hreply', hrunner'⟩ := hanswer page hpage
  rw [answer_at (placeOf_of_not_opens (Request.opens_of_isToLevel hlevel))]
  refine ⟨hreply.trans hreply'.symm, r', ?_, hrunner'⟩
  show (put call.place v.runners _)[call.place]? = some r'
  rw [hrunner, getElem?_put_self hi]

/-- The requests that the level at a place deals with. -/
def requestsTo (i : Nat) (calls : List Call) : List Request :=
  (calls.filter (·.isTo i)).map (·.request)

/-- The replies to these requests. -/
def repliesTo (i : Nat) (calls : List Call) (replies : List Reply) : List Reply :=
  ((calls.zip replies).filter (·.1.isTo i)).map (·.2)

/-- **Run.** An open level answers the requests that it deals with as it would on any page of its own,
and comes to the same, whatever calls for other levels, openings and questions about the page stand
between them. -/
theorem answerAll_runner (hr : v.runners[i]? = some r) {page : Page} (hpage : page.runner = some r)
    (calls : List Call) :
    repliesTo i calls (v.answerAll calls).value.1 =
        (page.answerAll (requestsTo i calls)).value.1 ∧
      ∃ r', (v.answerAll calls).value.2.runners[i]? = some r' ∧
        (page.answerAll (requestsTo i calls)).value.2.runner = some r' := by
  induction calls generalizing v r page with
  | nil => exact ⟨rfl, r, hr, hpage⟩
  | cons call calls ih =>
    cases h : call.isTo i with
    | true =>
      obtain ⟨hreply, r', hr', hpage'⟩ := runner_answer_of_isTo hr h hpage
      obtain ⟨hreplies, hlast⟩ := ih hr' hpage'
      have hrequests : requestsTo i (call :: calls) = call.request :: requestsTo i calls := by
        simp [requestsTo, h]
      rw [hrequests]
      refine ⟨?_, hlast⟩
      simp only [Page.answerAll, Logged.value_bind, Logged.value_pure, ← hreplies, ← hreply]
      simp [repliesTo, answerAll, h]
    | false =>
      obtain ⟨hreplies, hlast⟩ := ih (runner_answer_of_not_isTo hr h) hpage
      have hrequests : requestsTo i (call :: calls) = requestsTo i calls := by
        simp [requestsTo, h]
      rw [hrequests]
      refine ⟨?_, hlast⟩
      rw [← hreplies]
      simp [repliesTo, answerAll, h]

-- the level opened first is started after a second one has been opened
example :
    ((fresh none).answerAll [⟨0, .openBuiltin "level1"⟩, ⟨0, .openBuiltin "level2"⟩,
      ⟨0, .start "[\"forward\"]"⟩, ⟨1, .isRunning⟩, ⟨0, .isRunning⟩]).value.1 =
      [Reply.done, Reply.done, Reply.done, Reply.flag false, Reply.flag true] := by
  decide +kernel

end Independence

/-! ## The level opened last -/

/-- The page that the level opened last sees. -/
def lastPage (v : Visit) : Page :=
  v.pageAt (v.runners.length - 1)

/-- A level that is opened, or is not, leaves the page that the last one sees as it would on that page. -/
theorem lastPage_leave_install (v : Visit) (opened : Except Refusal Runner) :
    ((v.pageAt v.runners.length).install opened).1 = (v.lastPage.install opened).1 ∧
    (v.leave v.runners.length ((v.pageAt v.runners.length).install opened).2).lastPage =
      (v.lastPage.install opened).2 := by
  cases opened with
  | error refusal =>
    refine ⟨rfl, ?_⟩
    simp [Page.install, leave, lastPage, pageAt, put]
  | ok r =>
    refine ⟨rfl, ?_⟩
    simp [Page.install, leave, lastPage, pageAt, put]

/-- The level opened last sees the page as it has left it. -/
theorem lastPage_leave (v : Visit) {page : Page}
    (h : page.runner.isSome = v.lastPage.runner.isSome) :
    (v.leave (v.runners.length - 1) page).lastPage = page := by
  obtain ⟨storage, runner, booted, warnings⟩ := page
  cases runner with
  | none =>
    have hnone : v.runners[v.runners.length - 1]? = none := by
      simpa [lastPage, pageAt] using h
    simp only [leave, put, lastPage, pageAt, hnone]
  | some r =>
    have hlt : v.runners.length - 1 < v.runners.length := by
      have hsome : v.runners[v.runners.length - 1]?.isSome = true := h.symm
      simpa using hsome
    simp only [leave, put, lastPage, pageAt, if_pos hlt, List.length_set, List.getElem?_set_self hlt]

/-- **Step.** For a request to the level opened last, a visit is the page that this level sees. -/
theorem answerLast_eq (v : Visit) (request : Request) :
    (v.answerLast request).value.1 = (v.lastPage.answer request).value.1 ∧
      (v.answerLast request).value.2.lastPage = (v.lastPage.answer request).value.2 := by
  unfold answerLast
  cases hopens : request.opens with
  | true =>
    rw [answer_at (placeOf_of_opens hopens)]
    rcases Request.opens_iff.mp hopens with ⟨id, rfl⟩ | ⟨text, rfl⟩
    · exact v.lastPage_leave_install _
    · exact v.lastPage_leave_install _
  | false =>
    rw [answer_at (placeOf_of_not_opens hopens)]
    exact ⟨rfl, v.lastPage_leave (Page.isSome_runner_answer _ hopens)⟩

/-- **Run.** A visitor who keeps to the level opened last gets the replies of a page, and the page that
this level sees in the end is the one that they leave. -/
theorem answerAllLast_eq (v : Visit) (requests : List Request) :
    (v.answerAllLast requests).value.1 = (v.lastPage.answerAll requests).value.1 ∧
      (v.answerAllLast requests).value.2.lastPage = (v.lastPage.answerAll requests).value.2 := by
  induction requests generalizing v with
  | nil => exact ⟨rfl, rfl⟩
  | cons request requests ih =>
    obtain ⟨hreply, hpage⟩ := v.answerLast_eq request
    obtain ⟨hreplies, hlast⟩ := ih (v.answerLast request).value.2
    rw [hpage] at hreplies hlast
    simp only [answerAllLast, Page.answerAll, Logged.value_bind, Logged.value_pure, hreply, hreplies,
      hlast]
    exact ⟨trivial, trivial⟩

/-! ## What holds of each open level -/

/-- What holds at first and is kept by every call holds after all calls. -/
theorem preserved {I : Visit → Prop} (hstep : ∀ v call, I v → I (v.answer call).value.2) {v : Visit}
    (h : I v) (calls : List Call) : I (v.answerAll calls).value.2 := by
  induction calls generalizing v with
  | nil => exact h
  | cons call calls ih => exact ih (hstep v call h)

/-- Every open level can be played. -/
def Playable (v : Visit) : Prop :=
  ∀ r ∈ v.runners, r.session.level.validate = .ok ()

/-- **Step.** What a call opens can be played, and what is open stays so. -/
theorem Playable.answer {v : Visit} (h : v.Playable) (call : Call) :
    (v.answer call).value.2.Playable := by
  have hpage : (v.pageAt (v.placeOf call)).Playable := fun r hr => h r (List.mem_of_getElem? hr)
  intro r hr
  rcases mem_put hr with hr | hr
  · exact h r hr
  · exact hpage.answer call.request r hr

theorem playable_answerAll (storage : Option Storage) (calls : List Call) :
    ((fresh storage).answerAll calls).value.2.Playable := by
  refine preserved (I := Playable) (fun v call h => h.answer call) ?_ calls
  intro r hr
  cases hr

/-- **Pacing, with other levels open.** A program is started on any of the open levels, whichever was
opened last. Then there may be calls of all kinds, as long as those to this level belong to the run. The
outcomes that this level hands out are the first ones of ticking a session of one's own, and the session
is the one that these ticks lead to. -/
theorem pacing_of_calls (storage : Option Storage) (past : List Call) {i : Nat} {r : Runner}
    (hopen : ((fresh storage).answerAll past).value.2.runners[i]? = some r)
    (hidle : r.session.run.phase ≠ .running) {text : String} {program : Program}
    (htext : Json.decode? Program.ofJson? text = some program) (hne : program ≠ [])
    (calls : List Call) :
    let v := ((fresh storage).answerAll past).value.2
    let started := (v.answer ⟨i, .start text⟩).value
    let replies := repliesTo i calls (started.2.answerAll calls).value.1
    let results := replies.flatMap Reply.results
    started.1 = .done ∧
    ((started.2.pageAt i).keepsRunAll (requestsTo i calls) = true →
      ∃ s t r', (Session.prepare r.session.level).value = .ok s ∧ (s.start program).value = .ok t ∧
        (started.2.answerAll calls).value.2.runners[i]? = some r' ∧
        results <+: t.finish.value.1 ∧
        results.map some = t.answers results.length ∧
        r'.session.restored (replies.flatMap Reply.drained) =
          Session.ticked^[results.length] t) := by
  intro v started replies results
  have hlevel : r.session.level.validate = .ok () :=
    playable_answerAll storage past r (List.mem_of_getElem? hopen)
  have ho : r.session.level.objective.IsPlayable := Level.objective_isPlayable hlevel
  have hseen : (v.pageAt i).runner = some r := hopen
  obtain ⟨hdone, r₁, hr₁, hsession⟩ := Page.answer_start_of_idle hseen hidle htext hne
  obtain ⟨hreply, r₁', hopen₁, hr₁'⟩ :=
    runner_answer_of_isTo hopen (Call.isTo_self i (.start text)) hseen
  obtain rfl : r₁ = r₁' := Option.some.inj (hr₁.symm.trans hr₁')
  refine ⟨hreply.trans hdone, fun hkeeps => ?_⟩
  -- on the page that the level sees, its own requests are all there is
  have hseen₁ : (started.2.pageAt i).runner = some r₁ := hopen₁
  obtain ⟨hreplies, r', hlast, hr'⟩ := answerAll_runner hopen₁ hseen₁ calls
  obtain ⟨r'', hr'', hstate, hanswers, -⟩ := Page.answerAll_restored hseen₁ hkeeps []
  obtain rfl : r' = r'' := Option.some.inj (hr'.symm.trans hr'')
  have hbegun : r₁.session.restored [] = Session.begun r.session.level program := hsession
  rw [hbegun, ← hreplies] at hstate hanswers
  have hstart : ((⟨r.session.level, Run.fresh r.session.level⟩ : Session).start program).value =
      .ok (Session.begun r.session.level program) := Session.start_eq_ok hne nofun
  exact ⟨_, _, r', Session.prepare_eq_ok_iff.mpr ⟨hlevel, rfl⟩, hstart, hlast,
    Session.isPrefix_finish ho hne hanswers, hanswers, hstate⟩

/-! ## The shared storage -/

section Storage

variable {v : Visit}

/-- **Footprint.** Whatever is asked of whichever levels, every key but those of the settings and of the
record of unlocked levels keeps its text. -/
theorem get?_answerAll (v : Visit) (calls : List Call) {key : String}
    (hsettings : key ≠ Settings.storageKey) (hunlocks : key ≠ Unlocks.storageKey) :
    (v.answerAll calls).value.2.storage.bind (·.get? key) = v.storage.bind (·.get? key) :=
  preserved (I := fun w => w.storage.bind (·.get? key) = v.storage.bind (·.get? key))
    (fun _ _ h => (Page.text?_answer hsettings hunlocks).trans h) rfl calls

/-- After any calls the unlocked levels are those that were unlocked at first and those after one that
was completed. -/
theorem stored_answerAll {s : Storage} (hs : v.storage = some s) (calls : List Call) :
    ∃ t, (v.answerAll calls).value.2.storage = some t ∧ ∀ id, Unlocks.stored t id = true ↔
      Unlocks.stored s id = true ∨
        ∃ c, .complete c ∈ calls.map (·.request) ∧ Level.next? c = some id := by
  induction calls generalizing v s with
  | nil => exact ⟨s, hs, fun id => by simp⟩
  | cons call calls ih =>
    have hseen : (v.pageAt (v.placeOf call)).storage = some s := hs
    obtain ⟨t, ht, hstep⟩ := Page.stored_answer hseen call.request
    have hafter : (v.answer call).value.2.storage = some t := ht
    obtain ⟨t', ht', hrest⟩ := ih hafter
    refine ⟨t', ht', fun id => ?_⟩
    rw [hrest, hstep, or_assoc, ← exists_or]
    simp only [List.map_cons, List.mem_cons, or_and_right]

/-- **Unlocked levels, with several levels open.** Whoever asks, after any calls, is told by the stored
record alone. -/
theorem unlocks_of_calls {s : Storage} (hs : v.storage = some s) (calls : List Call) (i : Nat)
    (id : String) :
    ∃ b, ((v.answerAll calls).value.2.answer ⟨i, .isUnlocked id⟩).value.1 = .flag b ∧
      (b = true ↔ Unlocks.stored s id = true ∨
        ∃ c, .complete c ∈ calls.map (·.request) ∧ Level.next? c = some id) := by
  obtain ⟨t, ht, hstored⟩ := stored_answerAll hs calls
  exact ⟨Unlocks.stored t id, Page.answer_isUnlocked ht id, hstored id⟩

/-- **Settings, with several levels open.** A change of the pace of any open level leaves the others as
they are, and is what the next level is opened with if the times of this level are finite; if not, that
one is opened with the defaults. -/
theorem settings_of_calls {s : Storage} (hs : v.storage = some s) {i : Nat} {r : Runner}
    (hr : v.runners[i]? = some r) {text : String} {pace : Pace} (hpace : Pace.parse? text = some pace) :
    let after := (v.answer ⟨i, .setPace text⟩).value
    let chosen : Settings := { r.settings with pace }
    let found : Settings := if r.settings.isStorable then chosen else Settings.default
    after.1 = .done ∧ (∃ r', after.2.runners[i]? = some r' ∧ r'.settings = chosen) ∧
    (∀ j ≠ i, j < v.runners.length → after.2.runners[j]? = v.runners[j]?) ∧
    ∀ call : Call, call.request.opens = true → (after.2.answer call).value.1 = .done →
      ∃ next, (after.2.answer call).value.2.runners.getLast? = some next ∧
        next.settings = found ∧ next.pacer = Pacer.ofInterval found.pace.interval := by
  intro after chosen found
  have hseen : (v.pageAt i).runner = some r := hr
  have hstored : (v.pageAt i).storage = some s := hs
  have hanswer := Page.setPace_eq hstored hseen hpace
  obtain ⟨hreply, r', hr', hpage⟩ :=
    runner_answer_of_isTo hr (Call.isTo_self i (.setPace text)) hseen
  have hstorage : after.2.storage = ((v.pageAt i).answer (.setPace text)).value.2.storage :=
    congrArg (·.2.storage) (answer_at (placeOf_of_not_opens rfl))
  rw [hanswer] at hreply hpage hstorage
  have hload : (Settings.load after.2.storage).value = found := by
    rw [hstorage]
    exact Settings.load_set chosen s
  refine ⟨hreply, ⟨r', hr', congrArg Runner.settings (Option.some.inj hpage).symm⟩,
    fun j hj hlt => ?_, fun call hopens hdone => ?_⟩
  · have hopen := List.getElem?_eq_getElem hlt
    have hother : (Call.mk i (.setPace text)).isTo j = false := by simp [Call.isTo, hj.symm]
    rw [hopen]
    exact runner_answer_of_not_isTo hopen hother
  · rw [answer_at (placeOf_of_opens hopens)] at hdone ⊢
    obtain ⟨next, hnext, hsettings, hpacer⟩ :=
      Page.settings_of_opening (Request.opens_iff.mp hopens) hdone
    have hfound : next.settings = found := hsettings.trans hload
    rw [hfound] at hpacer
    refine ⟨next, ?_, hfound, hpacer⟩
    simp [leave, put, hnext]

end Storage

end Visit

end Seahorse
