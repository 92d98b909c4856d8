import Seahorse.Proofs.Requests

/-!
# What requests write

Three requests write to the storage of a page: a change of the pace stores settings, completing a level
stores the record of unlocked levels, and whoever loads that record stores one if there is none that
can be read, even if they only ask. `Page.writes` lists the texts and their keys, and
`Page.storage_answer_eq` says that nothing else happens to a storage. The other requests look at it
only to load settings.
-/

namespace Seahorse

namespace Storage

/-- Sets texts in turn. -/
def setAll (s : Storage) (items : List (String × String)) : Storage :=
  items.foldl (fun s item => s.set item.1 item.2) s

theorem setAll_append (s : Storage) (items items' : List (String × String)) :
    s.setAll (items ++ items') = (s.setAll items).setAll items' :=
  List.foldl_append

/-- A key that is not among those set keeps its text. -/
theorem get?_setAll_of_ne (s : Storage) {items : List (String × String)} {key : String}
    (h : ∀ item ∈ items, key ≠ item.1) : (s.setAll items).get? key = s.get? key := by
  induction items generalizing s with
  | nil => rfl
  | cons item items ih =>
    calc ((s.set item.1 item.2).setAll items).get? key
        = (s.set item.1 item.2).get? key := ih _ fun item' hmem => h item' (List.mem_cons_of_mem _ hmem)
      _ = s.get? key := get?_set_of_ne s _ (h item List.mem_cons_self)

end Storage

namespace Unlocks

/-- Settings and the record have keys of their own. -/
theorem storageKey_ne : storageKey ≠ Settings.storageKey := by
  decide

/-- The stored record, if there is one that can be read. -/
def stored? (s : Storage) : Option Unlocks :=
  (s.get? storageKey).bind ofText?

/-- What is written when the record is loaded. -/
def loadWrites (s : Storage) : List (String × String) :=
  if (stored? s).isSome then [] else [(storageKey, default.text)]

/-- What is written when a level is completed: the record is loaded, and then stored with the next
level unlocked if there is one. -/
def completeWrites (c : String) (s : Storage) : List (String × String) :=
  loadWrites s ++ (Level.next? c).toList.map fun next =>
    (storageKey, (((stored? s).getD default).set next true).text)

/-- Loading the record finds the stored one, or a new player's, which is then stored. -/
theorem load_eq (s : Storage) :
    (load (some s)).value = ((stored? s).getD default, some (s.setAll (loadWrites s))) := by
  unfold load loadWrites stored?
  rw [Option.bind_some]
  cases s.get? storageKey with
  | none => rfl
  | some text =>
    rw [Option.bind_some]
    dsimp only
    cases ofText? text <;> rfl

/-- Asking for a level answers from the stored record, and writes what loading writes. -/
theorem isUnlocked_eq (id : String) (s : Storage) :
    (isUnlocked id (some s)).value =
      (((stored? s).getD default).get id, some (s.setAll (loadWrites s))) := by
  simp only [isUnlocked, Logged.value_bind, load_eq, Logged.value_pure]

/-- Completing a level answers with the next one, whatever is stored. -/
theorem complete_eq (c : String) (s : Storage) :
    (complete c (some s)).value = (Level.next? c, some (s.setAll (completeWrites c s))) := by
  simp only [complete, Logged.value_bind, load_eq, unlockNext, completeWrites]
  cases Level.next? c with
  | none => simp
  | some next => simp [save, Storage.setAll]

theorem isUnlocked_storage (id : String) (storage : Option Storage) :
    (isUnlocked id storage).value.2 = storage.map fun s => s.setAll (loadWrites s) := by
  cases storage with
  | none => rfl
  | some s => exact congrArg Prod.snd (isUnlocked_eq id s)

theorem complete_storage (c : String) (storage : Option Storage) :
    (complete c storage).value.2 = storage.map fun s => s.setAll (completeWrites c s) := by
  cases storage with
  | none =>
    simp only [complete, load, Option.bind_none, startFresh, Logged.value_bind, unlockNext]
    cases Level.next? c <;> rfl
  | some s => exact congrArg Prod.snd (complete_eq c s)

end Unlocks

namespace Page

section Storage

variable {page : Page}

/-- What the open level deals with alone does not touch the storage. -/
theorem withRunner_storage (page : Page) (act : Runner → Logged (Reply × Runner)) :
    (page.withRunner act).value.2.storage = page.storage := by
  unfold withRunner
  cases page.runner <;> rfl

theorem install_storage (page : Page) (opened : Except Refusal Runner) :
    (page.install opened).2.storage = page.storage := by
  cases opened <;> rfl

/-- Only three requests write to the storage. -/
theorem storage_answer {request : Request} (hpace : ∀ text, request ≠ .setPace text)
    (hasked : ∀ id, request ≠ .isUnlocked id) (hcompleted : ∀ c, request ≠ .complete c) :
    (page.answer request).value.2.storage = page.storage := by
  cases request with
  | openBuiltin id => exact page.install_storage _
  | openText text => exact page.install_storage _
  | start text => exact page.withRunner_storage _
  | tick => exact page.withRunner_storage _
  | advance millis => exact page.withRunner_storage _
  | drain => exact page.withRunner_storage _
  | pose => exact page.withRunner_storage _
  | captured => exact page.withRunner_storage _
  | isRunning => exact page.withRunner_storage _
  | reset => exact page.withRunner_storage _
  | setPace text => exact absurd rfl (hpace text)
  | completionDelay => exact page.withRunner_storage _
  | messageDuration => exact page.withRunner_storage _
  | isUnlocked id => exact absurd rfl (hasked id)
  | complete c => exact absurd rfl (hcompleted c)
  | storage => rfl
  | boot => rfl

/-- The settings of the open level at the pace that a text means. -/
def paced? (page : Page) (text : String) : Option Settings :=
  page.runner.bind fun r => (Pace.parse? text).map fun pace => { r.settings with pace }

/-- A change of the pace stores these settings, or it is not done. -/
theorem storage_setPace (page : Page) (text : String) :
    (page.setPace text).value.2.storage =
      match page.paced? text with
      | none => page.storage
      | some settings => page.storage.map (·.set Settings.storageKey settings.text) := by
  unfold setPace paced?
  cases page.runner with
  | none => rfl
  | some r =>
    cases Pace.parse? text with
    | none => rfl
    | some pace => cases page.storage <;> rfl

/-- A change of the pace is done if a level is open and the text means a pace. -/
theorem setPace_done_iff (page : Page) (text : String) :
    (page.setPace text).value.1 = .done ↔ (page.paced? text).isSome = true := by
  unfold setPace paced?
  cases page.runner with
  | none => simp
  | some r => cases Pace.parse? text <;> simp

/-- What a request writes to the storage. -/
def writes (page : Page) (s : Storage) : Request → List (String × String)
  | .setPace text => (page.paced? text).toList.map fun settings => (Settings.storageKey, settings.text)
  | .isUnlocked _ => Unlocks.loadWrites s
  | .complete c => Unlocks.completeWrites c s
  | _ => []

/-- **Step.** That is all that a request does to a storage, and where there is none, there is none
afterwards. -/
theorem storage_answer_eq (page : Page) (request : Request) :
    (page.answer request).value.2.storage =
      page.storage.map fun s => s.setAll (page.writes s request) := by
  cases request with
  | setPace text =>
    refine (page.storage_setPace text).trans ?_
    simp only [writes]
    cases page.paced? text with
    | none => exact Option.map_id'.symm
    | some settings => rfl
  | isUnlocked id => exact Unlocks.isUnlocked_storage id page.storage
  | complete c => exact Unlocks.complete_storage c page.storage
  | _ =>
    rw [storage_answer (by simp) (by simp) (by simp)]
    exact Option.map_id'.symm

/-! ## Pages that differ in their storage -/

/-- What the open level deals with alone does not look at the storage either. -/
theorem withRunner_of_storage (page : Page) (storage : Option Storage)
    (act : Runner → Logged (Reply × Runner)) :
    (withRunner { page with storage } act).value =
      ((page.withRunner act).value.1, { (page.withRunner act).value.2 with storage }) := by
  obtain ⟨_, _ | r, booted, warnings⟩ := page <;> rfl

theorem install_of_storage (page : Page) (storage : Option Storage)
    (opened : Except Refusal Runner) :
    install { page with storage } opened =
      ((page.install opened).1, { (page.install opened).2 with storage }) := by
  cases opened <;> rfl

/-- To the requests that do not write, a storage is no more than the settings that are loaded from it. -/
theorem answer_of_storage (page : Page) {storage : Option Storage}
    (hload : Settings.load storage = Settings.load page.storage) {request : Request}
    (hpace : ∀ text, request ≠ .setPace text) (hasked : ∀ id, request ≠ .isUnlocked id)
    (hcompleted : ∀ c, request ≠ .complete c) (hlooked : request ≠ .storage) :
    (answer { page with storage } request).value =
      ((page.answer request).value.1, { (page.answer request).value.2 with storage }) := by
  cases request with
  | openBuiltin id =>
    have hopen : Runner.openBuiltin id storage = Runner.openBuiltin id page.storage := by
      simp only [Runner.openBuiltin, Runner.ofLevel, hload]
    simp only [answer, Logged.value_bind, Logged.value_pure, hopen]
    exact page.install_of_storage storage _
  | openText text =>
    have hopen : Runner.openText text storage = Runner.openText text page.storage := by
      simp only [Runner.openText, Runner.ofLevel, hload]
    simp only [answer, Logged.value_bind, Logged.value_pure, hopen]
    exact page.install_of_storage storage _
  | start text => exact page.withRunner_of_storage storage _
  | tick => exact page.withRunner_of_storage storage _
  | advance millis => exact page.withRunner_of_storage storage _
  | drain => exact page.withRunner_of_storage storage _
  | pose => exact page.withRunner_of_storage storage _
  | captured => exact page.withRunner_of_storage storage _
  | isRunning => exact page.withRunner_of_storage storage _
  | reset => exact page.withRunner_of_storage storage _
  | setPace text => exact absurd rfl (hpace text)
  | completionDelay => exact page.withRunner_of_storage storage _
  | messageDuration => exact page.withRunner_of_storage storage _
  | isUnlocked id => exact absurd rfl (hasked id)
  | complete c => exact absurd rfl (hcompleted c)
  | storage => exact absurd rfl hlooked
  | boot => rfl

end Storage

end Page

end Seahorse
