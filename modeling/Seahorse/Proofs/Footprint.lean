import Seahorse.Proofs.UnlockRecord

/-!
# What a page leaves in its storage

Settings and the record of unlocked levels share one storage with whatever else is in it. Each of the
two has a key of its own, and every key but these keeps its text. Settings are written by a change of
the pace that is done, and by nothing else. The record is written by those who complete a level, and by
those who ask for one where no record can be read.

A page without a storage keeps nothing. As long as there is nothing worth keeping, that is without a
change of the pace or a completed level, no reply tells it from a page with an empty storage.
-/

namespace Seahorse

namespace Page

/-- The text that a page has stored under a key. -/
def text? (page : Page) (key : String) : Option String :=
  page.storage.bind (·.get? key)

section Frame

variable {page : Page}

/-- Whatever is written, it is written under one of the two keys, by a request that may do so. -/
theorem key_of_mem_writes {s : Storage} {request : Request} {item : String × String}
    (h : item ∈ page.writes s request) :
    (item.1 = Settings.storageKey ∧ (∃ text, request = .setPace text) ∧
      (page.answer request).value.1 = .done) ∨
    (item.1 = Unlocks.storageKey ∧ ∃ id, request = .isUnlocked id ∨ request = .complete id) := by
  have hload (h : item ∈ Unlocks.loadWrites s) : item.1 = Unlocks.storageKey := by
    unfold Unlocks.loadWrites at h
    split_ifs at h
    · cases h
    · rw [List.mem_singleton.mp h]
  cases request with
  | setPace text =>
    obtain ⟨settings, hpaced, rfl⟩ := List.mem_map.mp h
    have hsome : (page.paced? text).isSome = true := by
      rw [Option.mem_toList.mp hpaced]
      rfl
    exact .inl ⟨rfl, ⟨text, rfl⟩, (page.setPace_done_iff text).mpr hsome⟩
  | isUnlocked id => exact .inr ⟨hload h, id, .inl rfl⟩
  | complete c =>
    refine .inr ⟨?_, c, .inr rfl⟩
    rcases List.mem_append.mp h with h | h
    · exact hload h
    · obtain ⟨next, -, rfl⟩ := List.mem_map.mp h
      rfl
  | _ => cases h

theorem text?_answer_of_ne {request : Request} {key : String}
    (h : ∀ s, ∀ item ∈ page.writes s request, key ≠ item.1) :
    (page.answer request).value.2.text? key = page.text? key := by
  rw [text?, storage_answer_eq, text?]
  cases page.storage with
  | none => rfl
  | some s => exact s.get?_setAll_of_ne (h s)

theorem text?_answer {request : Request} {key : String} (hsettings : key ≠ Settings.storageKey)
    (hunlocks : key ≠ Unlocks.storageKey) :
    (page.answer request).value.2.text? key = page.text? key := by
  refine text?_answer_of_ne fun s item hitem => ?_
  rcases key_of_mem_writes hitem with ⟨hkey, -⟩ | ⟨hkey, -⟩ <;> rwa [hkey]

theorem settings_of_text?_ne {request : Request}
    (h : (page.answer request).value.2.text? Settings.storageKey ≠ page.text? Settings.storageKey) :
    (∃ text, request = .setPace text) ∧ (page.answer request).value.1 = .done := by
  by_contra hnot
  refine h (text?_answer_of_ne fun s item hitem heq => ?_)
  rcases key_of_mem_writes hitem with ⟨-, hpace⟩ | ⟨hkey, -⟩
  · exact hnot hpace
  · exact Unlocks.storageKey_ne (hkey.symm.trans heq.symm)

theorem unlocks_of_text?_ne {request : Request}
    (h : (page.answer request).value.2.text? Unlocks.storageKey ≠ page.text? Unlocks.storageKey) :
    ∃ id, request = .isUnlocked id ∨ request = .complete id := by
  by_contra hnot
  refine h (text?_answer_of_ne fun s item hitem heq => ?_)
  rcases key_of_mem_writes hitem with ⟨hkey, -⟩ | ⟨-, hasked⟩
  · exact Unlocks.storageKey_ne (heq.trans hkey)
  · exact hnot hasked

/-- Asking leaves a storage with a record that can be read as it is. -/
theorem storage_isUnlocked {u : Unlocks} (id : String)
    (h : (page.text? Unlocks.storageKey).bind Unlocks.ofText? = some u) :
    (page.answer (.isUnlocked id)).value.2.storage = page.storage := by
  rw [storage_answer_eq]
  cases hs : page.storage with
  | none => rfl
  | some s =>
    have hread : Unlocks.stored? s = some u := by
      rw [← h, text?, hs]
      rfl
    simp only [Option.map_some, writes, Unlocks.loadWrites, hread]
    rfl

end Frame

/-! ## Pages without a storage -/

/-- A page without a storage, and the same page with one that says what it says to a new player. -/
def Storeless (p q : Page) : Prop :=
  p.storage = none ∧ ∃ t, q = { p with storage := some t } ∧ Unlocks.Alike ⟨[]⟩ t

/-- **Step.** Without a change of the pace and a completed level, such pages reply the same. -/
theorem Storeless.answer {p q : Page} (h : Storeless p q) {request : Request}
    (hpace : ∀ text, request ≠ .setPace text) (hcompleted : ∀ c, request ≠ .complete c)
    (hlooked : request ≠ .storage) :
    (p.answer request).value.1 = (q.answer request).value.1 ∧
      Storeless (p.answer request).value.2 (q.answer request).value.2 := by
  obtain ⟨hp, t, rfl, halike⟩ := h
  by_cases hasked : ∃ id, request = .isUnlocked id
  · -- one page writes a new player's record, the other answers from one and forgets it
    obtain ⟨id, rfl⟩ := hasked
    obtain ⟨t', ht', hsame⟩ := Unlocks.isUnlocked_some id t
    have hnew : (Unlocks.isUnlocked id none).value = (Unlocks.stored t id, none) := by
      rw [← halike.stored_eq, Unlocks.stored_eq]
      rfl
    simp only [Page.answer, Logged.value_bind, Logged.value_pure, hp, hnew, ht']
    exact ⟨trivial, rfl, t', rfl, halike.trans hsame⟩
  · have hload : Settings.load (some t) = Settings.load p.storage := by
      simp only [Settings.load, hp, Option.bind_some, ← halike.get?_eq _ Unlocks.storageKey_ne.symm]
      rfl
    have hasked' : ∀ id, request ≠ .isUnlocked id := fun id heq => hasked ⟨id, heq⟩
    rw [answer_of_storage p hload hpace hasked' hcompleted hlooked]
    exact ⟨rfl, (storage_answer hpace hasked' hcompleted).trans hp, t, rfl, halike⟩

/-! ## Sequences of requests -/

theorem answerAll_take_succ (page : Page) {requests : List Request} {i : Nat} {request : Request}
    (hi : requests[i]? = some request) :
    (page.answerAll (requests.take (i + 1))).value.2 =
      ((page.answerAll (requests.take i)).value.2.answer request).value.2 := by
  rw [List.take_add_one, hi, Option.toList_some, answerAll_append]
  rfl

/-- If one more request makes a page look different, it is there, and answering it made the difference. -/
theorem exists_request_of_ne {α : Type} (page : Page) (view : Page → α) {requests : List Request}
    {i : Nat} (h : view (page.answerAll (requests.take (i + 1))).value.2 ≠
      view (page.answerAll (requests.take i)).value.2) :
    ∃ request, requests[i]? = some request ∧
      view ((page.answerAll (requests.take i)).value.2.answer request).value.2 ≠
        view (page.answerAll (requests.take i)).value.2 := by
  cases hi : requests[i]? with
  | none =>
    rw [List.take_add_one, hi, Option.toList_none, List.append_nil] at h
    exact absurd rfl h
  | some request =>
    rw [page.answerAll_take_succ hi] at h
    exact ⟨request, rfl, h⟩

/-- **The footprint of a page in its storage.** On any page, with any storage or none, in a sequence of
any requests, done or refused: every key but those of the settings and of the record of unlocked levels
keeps its text throughout. The settings are changed only by a change of the pace that is done, and the
record only by those who ask for a level or complete one; asking where a record can be read leaves the
storage as it is. What each request writes is listed by `writes`, and it is all that happens to the
storage. A page has a storage afterwards if and only if it had one before. Requests without a change of
the pace and without a completed level are replied to on a page without a storage as on one with an
empty storage, if the storage itself is not looked at. -/
theorem footprint_of_requests (page : Page) (requests : List Request) :
    let before i := (page.answerAll (requests.take i)).value.2
    (∀ i key, key ≠ Settings.storageKey → key ≠ Unlocks.storageKey →
      (before i).text? key = page.text? key) ∧
    (∀ i, (before (i + 1)).text? Settings.storageKey ≠ (before i).text? Settings.storageKey →
      (∃ text, requests[i]? = some (.setPace text)) ∧
        (page.answerAll requests).value.1[i]? = some .done) ∧
    (∀ i, (before (i + 1)).text? Unlocks.storageKey ≠ (before i).text? Unlocks.storageKey →
      ∃ id, requests[i]? = some (.isUnlocked id) ∨ requests[i]? = some (.complete id)) ∧
    (∀ i id u, requests[i]? = some (.isUnlocked id) →
      ((before i).text? Unlocks.storageKey).bind Unlocks.ofText? = some u →
      (before (i + 1)).storage = (before i).storage) ∧
    (∀ i request, requests[i]? = some request → (before (i + 1)).storage =
      (before i).storage.map fun s => s.setAll ((before i).writes s request)) ∧
    (∀ i, (before i).storage = none ↔ page.storage = none) ∧
    ((∀ text, .setPace text ∉ requests) → (∀ c, .complete c ∉ requests) → .storage ∉ requests →
      (answerAll { page with storage := none } requests).value.1 =
        (answerAll { page with storage := some ⟨[]⟩ } requests).value.1) := by
  intro before
  refine ⟨fun i key hsettings hunlocks => ?_, fun i hne => ?_, fun i hne => ?_,
    fun i id u hi hread => ?_, fun i request hi => ?_, fun i => ?_, fun hpace hcompleted hlooked => ?_⟩
  · exact preserved (I := fun p => p.text? key = page.text? key)
      (fun p request h => (text?_answer hsettings hunlocks).trans h) rfl _
  · obtain ⟨request, hi, hchanged⟩ := page.exists_request_of_ne (·.text? Settings.storageKey) hne
    obtain ⟨⟨text, rfl⟩, hdone⟩ := settings_of_text?_ne hchanged
    refine ⟨⟨text, hi⟩, ?_⟩
    rw [getElem?_answerAll, hi, Option.map_some, hdone]
  · obtain ⟨request, hi, hchanged⟩ := page.exists_request_of_ne (·.text? Unlocks.storageKey) hne
    obtain ⟨id, rfl | rfl⟩ := unlocks_of_text?_ne hchanged
    · exact ⟨id, .inl hi⟩
    · exact ⟨id, .inr hi⟩
  · exact (congrArg Page.storage (page.answerAll_take_succ hi)).trans (storage_isUnlocked id hread)
  · exact (congrArg Page.storage (page.answerAll_take_succ hi)).trans (storage_answer_eq _ request)
  · refine preserved (I := fun p => p.storage = none ↔ page.storage = none)
      (fun p request h => ?_) Iff.rfl _
    rw [storage_answer_eq, Option.map_eq_none_iff]
    exact h
  · refine replies_eq (R := Storeless)
      (A := fun r => (∀ text, r ≠ .setPace text) ∧ (∀ c, r ≠ .complete c) ∧ r ≠ .storage)
      (fun p q request hallowed h => h.answer hallowed.1 hallowed.2.1 hallowed.2.2)
      ⟨rfl, ⟨[]⟩, rfl, .refl _⟩ fun request hmem => ⟨?_, ?_, ?_⟩
    · rintro text rfl
      exact hpace text hmem
    · rintro c rfl
      exact hcompleted c hmem
    · rintro rfl
      exact hlooked hmem

/-- A storage with a text of someone else, and with settings and a record that cannot be read. -/
def storageOfOthers : Storage :=
  ⟨[("theme", "dark"), (Settings.storageKey, "\x7b"), (Unlocks.storageKey, "[1,2]")]⟩

/-- An unknown pace leaves the settings as they are, readable or not. The first to ask for a level writes
a record, and the second finds it. -/
theorem footprint_of_requests_others :
    let page := fresh (some storageOfOthers)
    let requests : List Request := [.openBuiltin "level1", .setPace "warp", .isUnlocked "level2",
      .isUnlocked "level1", .setPace "FAST", .complete "level1"]
    let before i := (page.answerAll (requests.take i)).value.2
    (before 6).text? "theme" = some "dark" ∧
    (before 2).text? Settings.storageKey = some "\x7b" ∧
    (before 3).text? Unlocks.storageKey = some Unlocks.default.text ∧
    (before 4).storage = (before 3).storage ∧
    (before 5).text? Settings.storageKey ≠ (before 4).text? Settings.storageKey ∧
    (page.answerAll requests).value.1[4]? = some .done := by
  intro page requests before
  have hwarp : (page.answerAll requests).value.1[1]? = some (.refused (.unknownPace "warp")) := by
    decide +kernel
  have hkept : (before 1).text? Settings.storageKey = some "\x7b" := by decide +kernel
  have hrecord : (before 3).text? Unlocks.storageKey = some Unlocks.default.text := by decide +kernel
  have hread : Unlocks.ofText? Unlocks.default.text = some Unlocks.default :=
    Unlocks.whole_default.ofText?_text
  have hfast : (before 5).text? Settings.storageKey ≠ (before 4).text? Settings.storageKey := by
    decide +kernel
  have hdark : page.text? "theme" = some "dark" := by decide
  clear_value page
  obtain ⟨hothers, hsettings, -, hasked, -⟩ := footprint_of_requests page requests
  simp only [before] at hkept hrecord hfast ⊢
  refine ⟨(hothers 6 "theme" (by decide) (by decide)).trans hdark, ?_, hrecord, ?_, hfast,
    (hsettings 4 hfast).2⟩
  · by_contra hchanged
    obtain ⟨-, hdone⟩ := hsettings 1 fun hsame => hchanged (hsame.trans hkept)
    rw [hwarp] at hdone
    cases hdone
  · -- with the index written as a sum, no page has to be computed to see that the two agree
    rw [show 4 = 3 + 1 from rfl]
    refine hasked 3 "level1" Unlocks.default rfl ?_
    rw [hrecord, Option.bind_some, hread]

end Page

end Seahorse
