import Seahorse.Proofs.RoundTrip
import Seahorse.Proofs.UnlockRecord

/-!
# What becomes of settings in storage

A change of the pace stores all settings of the runner, and the next level to be opened takes them from
there. They arrive unchanged exactly if both times are finite. A stored text can give a time beyond the
largest scalar, which is read as an infinity; an infinity is written as `null`, and a record with a
`null` in it is not read at all, so all that was chosen is replaced by the defaults. A page that starts
without such a text never gets to one.
-/

namespace Seahorse

namespace Settings

/-- Whether both times have a numeral. -/
def isStorable (s : Settings) : Bool :=
  s.completionDelay.isFinite && s.messageDuration.isFinite

theorem isStorable_iff {s : Settings} :
    s.isStorable = true ↔ ∀ x ∈ s.scalars, x.isFinite = true := by
  simp [isStorable, scalars]

/-- A record with a time that has no numeral is not read. -/
theorem ofJson?_toJson_of_not_isStorable {s : Settings} (h : s.isStorable = false) :
    ofJson? s.toJson = none := by
  have hslots : s.toJson.slots? ["pacing", "completion_delay", "message_duration", "reduced_motion"] =
      some [some s.pace.toJson, some (.ofScalar s.completionDelay),
        some (.ofScalar s.messageDuration), some (.bool s.reducedMotion)] :=
    Json.slots?_object (show ["pacing", "completion_delay", "message_duration",
      "reduced_motion"].Nodup by decide)
  rw [isStorable, Bool.and_eq_false_iff] at h
  rcases h with hdelay | hduration
  · simp [ofJson?, hslots, Json.scalar?_ofScalar_of_not_isFinite hdelay]
  · simp [ofJson?, hslots, Json.scalar?_ofScalar_of_not_isFinite hduration]

/-- The text of settings is read as these settings, or as nothing. -/
theorem ofText?_text (s : Settings) : ofText? s.text = if s.isStorable then some s else none := by
  cases h : s.isStorable with
  | true => exact (standsFor (isStorable_iff.mp h)).decode?_render
  | false =>
    rw [ofText?, Json.decode?, text, Json.read?_render (s.holdable_toJson le_rfl), Option.bind_some,
      ofJson?_toJson_of_not_isStorable h]
    rfl

/-- Settings that were stored are loaded again if both times are finite, and otherwise replaced. -/
theorem load_set (s : Settings) (storage : Storage) :
    (load (some (storage.set storageKey s.text))).value = if s.isStorable then s else default := by
  rw [load, Option.bind_some, Storage.get?_set_self]
  simp only [ofText?_text]
  cases s.isStorable <;> rfl

theorem load_congr {s t : Storage} (h : t.get? storageKey = s.get? storageKey) :
    load (some t) = load (some s) := by
  simp only [load, Option.bind_some, h]

end Settings

namespace Runner

/-- A level is opened with the stored settings and a clock at their pace. -/
theorem ofLevel_settings {level : Level} {storage : Option Storage} {r : Runner}
    (h : (ofLevel level storage).value = .ok r) :
    r.settings = (Settings.load storage).value ∧ r.pacer = Pacer.ofInterval r.settings.interval := by
  simp only [ofLevel, Logged.value_bind] at h
  cases hp : (Session.prepare level).value with
  | error f => simp [hp] at h
  | ok s =>
    rw [hp] at h
    obtain rfl := Except.ok.inj h
    exact ⟨rfl, rfl⟩

theorem openBuiltin_settings {id : String} {storage : Option Storage} {r : Runner}
    (h : (openBuiltin id storage).value = .ok r) :
    r.settings = (Settings.load storage).value ∧ r.pacer = Pacer.ofInterval r.settings.interval := by
  obtain ⟨level, hlevel⟩ := exists_ofLevel_of_openBuiltin h
  exact ofLevel_settings hlevel

theorem openText_settings {text : String} {storage : Option Storage} {r : Runner}
    (h : (openText text storage).value = .ok r) :
    r.settings = (Settings.load storage).value ∧ r.pacer = Pacer.ofInterval r.settings.interval := by
  obtain ⟨level, hlevel⟩ := exists_ofLevel_of_openText h
  exact ofLevel_settings hlevel

theorem advance_settings (millis : Double) (r : Runner) :
    (r.advance millis).value.2.settings = r.settings := by
  unfold advance
  cases r.session.isRunning <;> rfl

end Runner

namespace Page

/-! ## What a request does to settings -/

/-- The settings of the open level. -/
def settings? (page : Page) : Option Settings :=
  page.runner.map (·.settings)

section Settings

variable {page : Page}

theorem withRunner_settings {act : Runner → Logged (Reply × Runner)}
    (hact : ∀ r, (act r).value.2.settings = r.settings) :
    (page.withRunner act).value.2.settings? = page.settings? := by
  unfold settings?
  cases hr : page.runner with
  | none => simp [withRunner, hr]
  | some r => simp [withRunner_value hr, hact]

/-- The settings after an attempt to open a level: those of before, or those of the opened level. -/
theorem install_settings {opened : Except Refusal Runner} {settings : Settings}
    (hopened : ∀ r, opened = .ok r → r.settings = settings) :
    (page.install opened).2.settings? = page.settings? ∨
      (page.install opened).2.settings? = some settings := by
  cases opened with
  | error refusal => exact .inl rfl
  | ok r => exact .inr (congrArg some (hopened r rfl))

/-- A change of the pace stores the settings of the runner at that pace and sets its clock. -/
theorem setPace_eq {s : Storage} {r : Runner} {text : String} {pace : Pace}
    (hs : page.storage = some s) (hr : page.runner = some r) (hpace : Pace.parse? text = some pace) :
    (page.answer (.setPace text)).value =
      (.done, { page with
        storage := some (s.set Settings.storageKey { r.settings with pace }.text)
        runner := some { r with
          settings := { r.settings with pace }
          pacer := Pacer.ofInterval pace.interval } }) := by
  show (page.setPace text).value = _
  unfold setPace
  rw [hr, hpace, hs]
  rfl

/-- What a request can do to the settings of a page with a storage: leave the stored ones alone, and
keep those of the open level or open one with the stored settings; or change the pace and store all
settings of the open level. -/
def SettingsStep (page : Page) (s : Storage) (after : Page) : Prop :=
  ∃ t, after.storage = some t ∧
    ((t.get? Settings.storageKey = s.get? Settings.storageKey ∧
      (after.settings? = page.settings? ∨ after.settings? = some (Settings.load (some s)).value)) ∨
    ∃ r pace, page.runner = some r ∧ after.settings? = some { r.settings with pace } ∧
      t = s.set Settings.storageKey { r.settings with pace }.text)

theorem SettingsStep.kept {s : Storage} (hs : page.storage = some s) {after : Page}
    (hstorage : after.storage = page.storage) (hsettings : after.settings? = page.settings?) :
    SettingsStep page s after :=
  ⟨s, hstorage.trans hs, .inl ⟨rfl, .inl hsettings⟩⟩

theorem SettingsStep.install {s : Storage} (hs : page.storage = some s)
    {opened : Except Refusal Runner}
    (hopened : ∀ r, opened = .ok r → r.settings = (Settings.load (some s)).value) :
    SettingsStep page s (page.install opened).2 := by
  refine ⟨s, ?_, .inl ⟨rfl, install_settings hopened⟩⟩
  rw [install_storage, hs]

theorem SettingsStep.setPace {s : Storage} (hs : page.storage = some s) (text : String) :
    SettingsStep page s (page.answer (.setPace text)).value.2 := by
  cases hr : page.runner with
  | none => exact .kept hs (by simp [answer, Page.setPace, hr]) (by simp [answer, Page.setPace, hr])
  | some r =>
    cases hpace : Pace.parse? text with
    | none =>
      exact .kept hs (by simp [answer, Page.setPace, hr, hpace])
        (by simp [answer, Page.setPace, hr, hpace])
    | some pace =>
      rw [setPace_eq hs hr hpace]
      exact ⟨_, rfl, .inr ⟨r, pace, hr, rfl, rfl⟩⟩

/-- **Step.** Every request is one of these. -/
theorem settingsStep_answer {s : Storage} (hs : page.storage = some s) (request : Request) :
    SettingsStep page s (page.answer request).value.2 := by
  have hkept {act : Runner → Logged (Reply × Runner)}
      (hact : ∀ r, (act r).value.2.settings = r.settings) :
      SettingsStep page s (page.withRunner act).value.2 :=
    .kept hs (page.withRunner_storage act) (withRunner_settings hact)
  cases request with
  | openBuiltin id =>
    refine .install hs fun r hr => ?_
    rw [(Runner.openBuiltin_settings hr).1, hs]
  | openText text =>
    refine .install hs fun r hr => ?_
    rw [(Runner.openText_settings hr).1, hs]
  | start text =>
    refine hkept fun r => ?_
    rw [Logged.value_bind]
    rcases r.start_cases text with ⟨refusal, hstart⟩ | ⟨program, u, -, -, hstart⟩ <;> rw [hstart] <;> rfl
  | tick => exact hkept fun r => rfl
  | advance millis => exact hkept fun r => r.advance_settings millis
  | drain => exact hkept fun r => rfl
  | pose => exact hkept fun r => rfl
  | captured => exact hkept fun r => rfl
  | isRunning => exact hkept fun r => rfl
  | reset => exact hkept fun r => rfl
  | setPace text => exact .setPace hs text
  | completionDelay => exact hkept fun r => rfl
  | messageDuration => exact hkept fun r => rfl
  | isUnlocked id =>
    obtain ⟨t, hasked, halike⟩ := Unlocks.isUnlocked_some id s
    refine ⟨t, ?_, .inl ⟨(halike.get?_eq _ Unlocks.storageKey_ne.symm).symm, .inl rfl⟩⟩
    simp only [answer, Logged.value_bind, Logged.value_pure, hs, hasked]
  | complete c =>
    obtain ⟨t, hcompleted, -, hkeys⟩ := Unlocks.complete_some c s
    refine ⟨t, ?_, .inl ⟨(hkeys _ Unlocks.storageKey_ne.symm).symm, .inl rfl⟩⟩
    simp only [answer, Logged.value_bind, Logged.value_pure, hs, hcompleted]
  | storage => exact .kept hs rfl rfl
  | boot => exact .kept hs rfl rfl

/-! ## Pages without overflow -/

/-- On the page there are only settings that can be stored. -/
def HasStorableSettings (page : Page) : Prop :=
  ∃ s, page.storage = some s ∧ (Settings.load (some s)).value.isStorable = true ∧
    ∀ settings, page.settings? = some settings → settings.isStorable = true

/-- **Step.** Settings that can be stored stay so. -/
theorem HasStorableSettings.answer (h : page.HasStorableSettings) (request : Request) :
    (page.answer request).value.2.HasStorableSettings := by
  obtain ⟨s, hs, hstored, hopen⟩ := h
  obtain ⟨t, ht, ⟨htext, hsettings⟩ | ⟨r, pace, hr, hsettings, rfl⟩⟩ := settingsStep_answer hs request
  · refine ⟨t, ht, by rwa [Settings.load_congr htext], fun settings hafter => ?_⟩
    rcases hsettings with hsame | hloaded
    · exact hopen settings (hsame.symm.trans hafter)
    · obtain rfl := Option.some.inj (hloaded.symm.trans hafter)
      exact hstored
  · have hr' : { r.settings with pace }.isStorable = true := hopen r.settings (by simp [settings?, hr])
    refine ⟨_, ht, ?_, fun settings hafter => ?_⟩
    · rw [Settings.load_set, if_pos hr']
      exact hr'
    · obtain rfl := Option.some.inj (hsettings.symm.trans hafter)
      exact hr'

/-- **Run.** Whatever is asked of a page, no setting overflows that was not stored so at first. -/
theorem hasStorableSettings_answerAll {s : Storage}
    (hstored : (Settings.load (some s)).value.isStorable = true) (requests : List Request) :
    ((fresh (some s)).answerAll requests).value.2.HasStorableSettings := by
  refine preserved (I := HasStorableSettings) (fun page request h => h.answer request) ?_ requests
  refine ⟨s, rfl, hstored, fun settings hnone => ?_⟩
  cases hnone

theorem install_done {opened : Except Refusal Runner} (h : (page.install opened).1 = .done) :
    ∃ r, opened = .ok r ∧ (page.install opened).2.runner = some r := by
  cases opened with
  | error refusal => cases h
  | ok r => exact ⟨r, rfl, rfl⟩

/-- A level is opened with the stored settings and their pace. -/
theorem settings_of_opening {request : Request}
    (hopening : (∃ id, request = .openBuiltin id) ∨ ∃ level, request = .openText level)
    (hdone : (page.answer request).value.1 = .done) :
    ∃ r, (page.answer request).value.2.runner = some r ∧
      r.settings = (Settings.load page.storage).value ∧
      r.pacer = Pacer.ofInterval r.settings.interval := by
  rcases hopening with ⟨id, rfl⟩ | ⟨level, rfl⟩
  · obtain ⟨r, hopened, hr⟩ := install_done hdone
    exact ⟨r, hr, Runner.openBuiltin_settings hopened⟩
  · obtain ⟨r, hopened, hr⟩ := install_done hdone
    exact ⟨r, hr, Runner.openText_settings hopened⟩

end Settings

/-- **Settings in storage.** On a page with a storage, whatever was in it at first and whatever has been
asked since: a change of the pace is accepted and leaves the open level with the new pace and its other
settings. If both times are finite, these settings are what the storage holds, and what the next level
is opened with. If not, the stored settings are not read, and the next level is opened with the
defaults. This cannot happen on a page that has found no such time in its storage at first. -/
theorem settings_of_setPace (storage : Storage) (requests : List Request) {r : Runner} {text : String}
    {pace : Pace} (hr : ((fresh (some storage)).answerAll requests).value.2.runner = some r)
    (hpace : Pace.parse? text = some pace) :
    let page := ((fresh (some storage)).answerAll requests).value.2
    let after := (page.answer (.setPace text)).value.2
    let chosen : Settings := { r.settings with pace }
    let found : Settings := if r.settings.isStorable then chosen else Settings.default
    (page.answer (.setPace text)).value.1 = .done ∧ after.settings? = some chosen ∧
    (Settings.load after.storage).value = found ∧
    (∀ request, ((∃ id, request = .openBuiltin id) ∨ ∃ level, request = .openText level) →
      (after.answer request).value.1 = .done →
      ∃ next, (after.answer request).value.2.runner = some next ∧ next.settings = found ∧
        next.pacer = Pacer.ofInterval found.pace.interval) ∧
    ((Settings.load (some storage)).value.isStorable = true → r.settings.isStorable = true) := by
  intro page after chosen found
  have hfresh : (fresh (some storage)).storage = some storage := rfl
  obtain ⟨s, hs, -⟩ := stored_answerAll hfresh requests
  have hanswer := setPace_eq hs hr hpace
  have hload : (Settings.load after.storage).value = found := by
    show (Settings.load (page.answer (.setPace text)).value.2.storage).value = found
    rw [hanswer]
    exact Settings.load_set chosen s
  refine ⟨by rw [hanswer], ?_, hload, fun request hopening hdone => ?_, fun hstored => ?_⟩
  · show (page.answer (.setPace text)).value.2.settings? = some chosen
    rw [hanswer]
    rfl
  · obtain ⟨next, hnext, hsettings, hpacer⟩ := settings_of_opening hopening hdone
    rw [hload] at hsettings
    rw [hsettings] at hpacer
    exact ⟨next, hnext, hsettings, hpacer⟩
  · obtain ⟨-, -, -, hopen⟩ := hasStorableSettings_answerAll hstored requests
    exact hopen r.settings (by rw [settings?, hr, Option.map_some])

/-- The largest scalar as a delay, and a duration that is not given. -/
def storageOfLargestDelay : Storage :=
  ⟨[(Settings.storageKey, "\x7b\"pacing\":\"Slow\",\"completion_delay\":3.4028235e38\x7d")]⟩

theorem settings_of_setPace_largestDelay :
    let page := ((fresh (some storageOfLargestDelay)).answerAll [.openBuiltin "level1"]).value.2
    let after := (page.answer (.setPace "FAST")).value.2
    let chosen : Settings := ⟨.fast, 3.4028235e38, 3, false⟩
    Pace.parse? "FAST" = some .fast ∧ page.settings? = some { chosen with pace := .slow } ∧
    (Settings.load after.storage).value = chosen ∧
    ∃ next, (after.answer (.openBuiltin "level2")).value.2.runner = some next ∧
      next.settings = chosen ∧ next.pacer = Pacer.ofInterval Pace.fast.interval := by
  have hslow : ((fresh (some storageOfLargestDelay)).answerAll
      [.openBuiltin "level1"]).value.2.settings? = some ⟨.slow, 3.4028235e38, 3, false⟩ := by
    decide +kernel
  have hdone : ((((fresh (some storageOfLargestDelay)).answerAll
      [.openBuiltin "level1"]).value.2.answer (.setPace "FAST")).value.2.answer
        (.openBuiltin "level2")).value.1 = Reply.done := by decide +kernel
  have hpace : Pace.parse? "FAST" = some .fast := by decide +kernel
  have hstorable : Settings.isStorable ⟨.slow, 3.4028235e38, 3, false⟩ = true := by decide +kernel
  obtain ⟨r, hr, hsettings⟩ := Option.map_eq_some_iff.mp hslow
  obtain ⟨-, -, hload, hnext, -⟩ :=
    settings_of_setPace storageOfLargestDelay [.openBuiltin "level1"] hr hpace
  simp only [hsettings, if_pos hstorable] at hload hnext
  exact ⟨hpace, hslow, hload, hnext _ (.inl ⟨_, rfl⟩) hdone⟩

/-- A delay beyond the largest scalar. -/
def storageOfOverflow : Storage :=
  ⟨[(Settings.storageKey, "\x7b\"pacing\":\"Slow\",\"completion_delay\":1e39\x7d")]⟩

/-- The open level has that delay, an infinity. After a change of the pace, neither the pace nor the
delay is found in the storage. -/
theorem setPace_loses_overflow :
    let page := ((fresh (some storageOfOverflow)).answerAll [.openBuiltin "level1"]).value.2
    let after := (page.answer (.setPace "fast")).value.2
    let chosen : Settings := ⟨.fast, 1e39, 3, false⟩
    Pace.parse? "fast" = some .fast ∧ page.settings? = some { chosen with pace := .slow } ∧
    (page.answer (.setPace "fast")).value.1 = Reply.done ∧
    (Settings.load after.storage).value = Settings.default ∧
    (Settings.load after.storage).value ≠ chosen := by
  decide +kernel

end Page

end Seahorse
