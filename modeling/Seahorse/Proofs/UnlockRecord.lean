import Mathlib.Data.List.Basic
import Mathlib.Data.List.Sort
import Seahorse.Proofs.Json.Records
import Seahorse.Proofs.Writes

/-!
# The record of unlocked levels, from text to text

A page keeps no record of unlocked levels in memory. Whoever asks whether a level is unlocked reads
the stored text, and whoever completes one reads it, sets an entry and writes it anew. The record
survives this, because a record that has an entry for every built-in level is read back from its text
as it was. `Unlocks.stored` is what a storage says about the levels, and each request is described by
what it does to that: `isUnlocked` and all requests to the open level keep it, and `complete` adds the
level that comes next.
-/

namespace Seahorse

namespace Unlocks

/-! ## Records in order -/

/-- The entries stand in the order of their ids, each id once. -/
def Ordered (entries : List (String × Bool)) : Prop :=
  entries.Pairwise (·.1 < ·.1)

theorem Ordered.nodup {entries : List (String × Bool)} (h : Ordered entries) :
    (entries.map Prod.fst).Nodup := by
  rw [List.Nodup, List.pairwise_map]
  exact h.imp fun {a b} hlt (heq : a.1 = b.1) => String.lt_irrefl b.1 (heq ▸ hlt)

theorem mem_insert {id : String} {unlocked : Bool} {entries : List (String × Bool)}
    {e : String × Bool} (he : e ∈ insert id unlocked entries) : e = (id, unlocked) ∨ e ∈ entries := by
  fun_induction insert id unlocked entries <;> grind

theorem Ordered.insert {entries : List (String × Bool)} (h : Ordered entries) (id : String)
    (unlocked : Bool) : Ordered (insert id unlocked entries) := by
  induction entries with
  | nil => exact List.pairwise_singleton _ _
  | cons entry rest ih =>
    obtain ⟨other, flag⟩ := entry
    obtain ⟨hother, hrest⟩ := List.pairwise_cons.mp h
    rw [Unlocks.insert]
    split_ifs with hlt heq
    · refine List.pairwise_cons.mpr ⟨fun e he => ?_, h⟩
      rcases List.mem_cons.mp he with rfl | he
      · exact hlt
      · exact String.lt_trans hlt (hother e he)
    · subst heq
      exact List.pairwise_cons.mpr ⟨hother, hrest⟩
    · refine List.pairwise_cons.mpr ⟨fun e he => ?_, ih hrest⟩
      rcases mem_insert he with rfl | he
      · exact Std.lt_of_le_of_ne (String.not_lt.mp hlt) (Ne.symm heq)
      · exact hother e he

theorem lookup_eq_some_iff_mem {entries : List (String × Bool)} (h : (entries.map Prod.fst).Nodup)
    {id : String} {unlocked : Bool} : entries.lookup id = some unlocked ↔ (id, unlocked) ∈ entries := by
  induction entries with
  | nil => simp
  | cons entry rest ih =>
    obtain ⟨other, flag⟩ := entry
    obtain ⟨hother, hrest⟩ := List.nodup_cons.mp h
    by_cases heq : id = other
    · subst heq
      have hnot : (id, unlocked) ∉ rest := fun hmem =>
        hother (List.mem_map.mpr ⟨_, hmem, rfl⟩)
      simp [hnot, eq_comm]
    · simp [List.lookup_cons, beq_eq_false_iff_ne.mpr heq, heq, ih hrest]

/-- Of entries that name each id once, the first and the last one of an id are the same. -/
theorem lookup_reverse {entries : List (String × Bool)} (h : (entries.map Prod.fst).Nodup)
    (id : String) : entries.reverse.lookup id = entries.lookup id := by
  have hreverse : (entries.reverse.map Prod.fst).Nodup := by
    rwa [List.map_reverse, List.nodup_reverse]
  ext unlocked
  rw [lookup_eq_some_iff_mem hreverse, lookup_eq_some_iff_mem h, List.mem_reverse]

/-- Records in order that say the same of every id are equal. -/
theorem Ordered.ext {entries entries' : List (String × Bool)} (h : Ordered entries)
    (h' : Ordered entries') (hlookup : ∀ id, entries.lookup id = entries'.lookup id) :
    entries = entries' := by
  have hirrefl : Std.Irrefl fun e e' : String × Bool => e.1 < e'.1 := ⟨fun e => String.lt_irrefl e.1⟩
  have hasymm : Std.Asymm fun e e' : String × Bool => e.1 < e'.1 := ⟨fun _ _ => String.lt_asymm⟩
  refine List.Pairwise.eq_of_mem_iff h h' fun (id, unlocked) => ?_
  rw [← lookup_eq_some_iff_mem h.nodup, ← lookup_eq_some_iff_mem h'.nodup, hlookup]

/-! ## Whole records -/

/-- A record in order with an entry for every level that a new player's record has one for. -/
structure Whole (u : Unlocks) : Prop where
  ordered : Ordered u.entries
  covers : ∀ id, u.entries.lookup id = none → default.entries.lookup id = none

theorem whole_default : default.Whole :=
  ⟨by unfold Ordered; decide, fun _ h => h⟩

theorem Whole.set {u : Unlocks} (h : u.Whole) (id : String) (unlocked : Bool) :
    (u.set id unlocked).Whole := by
  refine ⟨h.ordered.insert id unlocked, fun other hother => h.covers other ?_⟩
  rw [Unlocks.set, lookup_insert] at hother
  split_ifs at hother
  exact hother

theorem Whole.setAll {u : Unlocks} (h : u.Whole) (entries : List (String × Bool)) :
    (u.setAll entries).Whole := by
  induction entries generalizing u with
  | nil => exact h
  | cons entry rest ih => exact ih (h.set entry.1 entry.2)

/-- Of several entries for one id, the last one counts. -/
theorem lookup_setAll (u : Unlocks) (entries : List (String × Bool)) (id : String) :
    (u.setAll entries).entries.lookup id = (entries.reverse.lookup id).or (u.entries.lookup id) := by
  induction entries generalizing u with
  | nil => rfl
  | cons entry rest ih =>
    obtain ⟨other, unlocked⟩ := entry
    have hset : (u.set other unlocked).entries.lookup id =
        ([(other, unlocked)].lookup id).or (u.entries.lookup id) := by
      rw [Unlocks.set, lookup_insert]
      by_cases heq : id = other
      · simp [heq]
      · simp [List.lookup_cons, heq, beq_eq_false_iff_ne.mpr heq]
    rw [List.reverse_cons, List.lookup_append, Option.or_assoc, ← hset]
    exact ih (u.set other unlocked)

theorem get_setAll (u : Unlocks) (entries : List (String × Bool)) (id : String) :
    (u.setAll entries).get id = (entries.reverse.lookup id).getD (u.get id) := by
  rw [get, get, lookup_setAll]
  cases entries.reverse.lookup id <;> rfl

/-- Set on top of a new player's record, the entries of a whole record give that record again. -/
theorem Whole.setAll_default {u : Unlocks} (h : u.Whole) : default.setAll u.entries = u := by
  have hentries : (default.setAll u.entries).entries = u.entries := by
    refine Ordered.ext (whole_default.setAll u.entries).ordered h.ordered fun id => ?_
    rw [lookup_setAll, lookup_reverse h.ordered.nodup]
    cases hid : u.entries.lookup id with
    | some unlocked => rfl
    | none => rw [h.covers id hid]; rfl
  obtain ⟨entries⟩ := u
  exact congrArg Unlocks.mk hentries

/-! ## Records in a text -/

theorem entriesOfJson?_toJson (u : Unlocks) : entriesOfJson? u.toJson = some u.entries := by
  rw [toJson, entriesOfJson?]
  induction u.entries with
  | nil => rfl
  | cons entry rest ih =>
    rw [List.map_cons, List.mapM_cons, ih]
    rfl

theorem decode?_text (u : Unlocks) : Json.decode? entriesOfJson? u.text = some u.entries := by
  have hstands : Json.StandsFor entriesOfJson? 1 u.toJson u.entries := by
    refine ⟨u.entriesOfJson?_toJson, fun room hroom => Json.holdable_object (by omega) ?_⟩
    intro m hm
    obtain ⟨entry, -, rfl⟩ := List.mem_map.mp hm
    rfl
  exact hstands.decode?_render

/-- A whole record is read back from its text. -/
theorem Whole.ofText?_text {u : Unlocks} (h : u.Whole) : ofText? u.text = some u := by
  rw [ofText?, decode?_text, Option.map_some, h.setAll_default]

theorem whole_of_ofText? {text : String} {u : Unlocks} (h : ofText? text = some u) : u.Whole := by
  obtain ⟨entries, -, rfl⟩ := Option.map_eq_some_iff.mp h
  exact whole_default.setAll entries

/-! ## What a storage says -/

/-- Whether a level is unlocked, by what is stored: the last entry of the stored object for the level
counts. Without an entry, or if the object is missing or cannot be read, only the first level is. -/
def stored (s : Storage) (id : String) : Bool :=
  match (s.get? storageKey).bind (Json.decode? entriesOfJson?) with
  | some entries => (entries.reverse.lookup id).getD (id = Level.firstStrokes.id)
  | none => id = Level.firstStrokes.id

theorem get_default (id : String) : default.get id = decide (id = Level.firstStrokes.id) := by
  have hentries : default.entries =
      [("level1", true), ("level2", false), ("level3", false), ("level4", false)] := by decide
  simp only [get, hentries, Level.firstStrokes, List.lookup_cons, List.lookup_nil]
  grind

/-- A storage says what the record says that is loaded from it. -/
theorem stored_eq (s : Storage) : stored s = ((stored? s).getD default).get := by
  funext id
  unfold stored stored? ofText?
  cases s.get? storageKey with
  | none => simp [get_default]
  | some text =>
    rw [Option.bind_some, Option.bind_some]
    cases Json.decode? entriesOfJson? text with
    | none => simp [get_default]
    | some entries => simp [get_setAll, get_default]

theorem whole_stored (s : Storage) : ((stored? s).getD default).Whole := by
  cases h : stored? s with
  | none => exact whole_default
  | some u =>
    obtain ⟨text, -, hread⟩ := Option.bind_eq_some_iff.mp h
    exact whole_of_ofText? hread

/-- A storage that holds the text of a whole record says what the record says. -/
theorem Whole.stored_set {u : Unlocks} (h : u.Whole) (s : Storage) :
    stored (s.set storageKey u.text) = u.get := by
  funext id
  rw [stored, Storage.get?_set_self, Option.bind_some, decode?_text]
  show (u.entries.reverse.lookup id).getD (id = Level.firstStrokes.id) = u.get id
  rw [← get_default, ← get_setAll, h.setAll_default]

/-- Two storages say the same of every level, and of everything but levels. -/
structure Alike (s t : Storage) : Prop where
  stored_eq : stored s = stored t
  get?_eq : ∀ key ≠ storageKey, s.get? key = t.get? key

theorem Alike.refl (s : Storage) : Alike s s :=
  ⟨rfl, fun _ _ => rfl⟩

theorem Alike.symm {s t : Storage} (h : Alike s t) : Alike t s :=
  ⟨h.stored_eq.symm, fun key hkey => (h.get?_eq key hkey).symm⟩

theorem Alike.trans {s t r : Storage} (h : Alike s t) (h' : Alike t r) : Alike s r :=
  ⟨h.stored_eq.trans h'.stored_eq, fun key hkey => (h.get?_eq key hkey).trans (h'.get?_eq key hkey)⟩

theorem stored_set_of_ne (s : Storage) {key : String} (hkey : storageKey ≠ key) (text : String) :
    stored (s.set key text) = stored s := by
  funext id
  rw [stored, Storage.get?_set_of_ne _ _ hkey, stored]

theorem Alike.set {s t : Storage} (h : Alike s t) {key : String} (hkey : storageKey ≠ key)
    (text : String) : Alike (s.set key text) (t.set key text) := by
  refine ⟨by rw [stored_set_of_ne s hkey, stored_set_of_ne t hkey, h.stored_eq], fun other hother => ?_⟩
  by_cases heq : other = key
  · rw [heq, Storage.get?_set_self, Storage.get?_set_self]
  · rw [Storage.get?_set_of_ne _ _ heq, Storage.get?_set_of_ne _ _ heq, h.get?_eq other hother]

/-- Loading the record may store it anew, but it says the same as before. -/
theorem alike_loadWrites (s : Storage) : Alike s (s.setAll (loadWrites s)) := by
  unfold loadWrites
  split_ifs with h
  · exact .refl s
  · have hnone : stored? s = none := by simpa using h
    refine ⟨?_, fun key hkey => (s.get?_set_of_ne _ hkey).symm⟩
    rw [stored_eq, hnone]
    exact (whole_default.stored_set s).symm

/-- Asking is answered by what is stored, and leaves it as it is. -/
theorem isUnlocked_some (id : String) (s : Storage) :
    ∃ t, (isUnlocked id (some s)).value = (stored s id, some t) ∧ Alike s t := by
  refine ⟨s.setAll (loadWrites s), ?_, alike_loadWrites s⟩
  rw [isUnlocked_eq, stored_eq]

/-- Completing a level returns the next one and unlocks it, and nothing else. -/
theorem complete_some (c : String) (s : Storage) :
    ∃ t, (complete c (some s)).value = (Level.next? c, some t) ∧
      (∀ id, stored t id = (stored s id || Level.next? c == some id)) ∧
      ∀ key ≠ storageKey, s.get? key = t.get? key := by
  have halike := alike_loadWrites s
  refine ⟨_, complete_eq c s, ?_⟩
  rw [completeWrites, Storage.setAll_append]
  cases Level.next? c with
  | none => exact ⟨fun id => by simp [Storage.setAll, halike.stored_eq], halike.get?_eq⟩
  | some next =>
    refine ⟨fun id => ?_, fun key hkey => ?_⟩
    · rw [stored_eq s, Option.toList_some, List.map_singleton]
      refine (congrFun (((whole_stored s).set next true).stored_set _) id).trans ?_
      by_cases hid : id = next
      · simp [hid]
      · simp [get_set_of_ne _ true hid, Ne.symm hid]
    · rw [halike.get?_eq key hkey]
      exact (Storage.get?_set_of_ne _ _ hkey).symm

end Unlocks

namespace Page

/-! ## Requests and the storage -/

section Storage

variable {page : Page}

/-- **Step.** A request unlocks the level after one that it completes, and no other; none is lost. -/
theorem stored_answer {s : Storage} (hs : page.storage = some s) (request : Request) :
    ∃ t, (page.answer request).value.2.storage = some t ∧ ∀ id, Unlocks.stored t id = true ↔
      Unlocks.stored s id = true ∨ ∃ c, .complete c = request ∧ Level.next? c = some id := by
  cases request with
  | complete c =>
    obtain ⟨t, hcomplete, hstored, -⟩ := Unlocks.complete_some c s
    refine ⟨t, ?_, fun id => by simp [hstored]⟩
    simp only [answer, Logged.value_bind, Logged.value_pure, hs, hcomplete]
  | isUnlocked id =>
    obtain ⟨t, hasked, halike⟩ := Unlocks.isUnlocked_some id s
    refine ⟨t, ?_, fun id => by simp [halike.stored_eq]⟩
    simp only [answer, Logged.value_bind, Logged.value_pure, hs, hasked]
  | setPace text =>
    have hset := page.storage_setPace text
    cases hpaced : page.paced? text with
    | none =>
      rw [hpaced] at hset
      exact ⟨s, hset.trans hs, fun id => by simp⟩
    | some settings =>
      rw [hpaced, hs] at hset
      refine ⟨_, hset, fun id => ?_⟩
      simp [Unlocks.stored_set_of_ne s Unlocks.storageKey_ne]
  | _ =>
    refine ⟨s, ?_, fun id => by simp⟩
    rw [storage_answer (by simp) (by simp) (by simp), hs]

/-- **Run.** After any requests the unlocked levels are those that were unlocked at first and those
after a completed one. -/
theorem stored_answerAll {s : Storage} (hs : page.storage = some s) (requests : List Request) :
    ∃ t, (page.answerAll requests).value.2.storage = some t ∧ ∀ id, Unlocks.stored t id = true ↔
      Unlocks.stored s id = true ∨ ∃ c, .complete c ∈ requests ∧ Level.next? c = some id := by
  induction requests generalizing page s with
  | nil => exact ⟨s, hs, fun id => by simp⟩
  | cons request requests ih =>
    obtain ⟨t, ht, hstep⟩ := stored_answer hs request
    obtain ⟨t', ht', hrest⟩ := ih ht
    refine ⟨t', ht', fun id => ?_⟩
    rw [hrest, hstep, or_assoc, ← exists_or]
    simp only [List.mem_cons, or_and_right]

theorem answer_isUnlocked {s : Storage} (hs : page.storage = some s) (id : String) :
    (page.answer (.isUnlocked id)).value.1 = .flag (Unlocks.stored s id) := by
  obtain ⟨t, hasked, -⟩ := Unlocks.isUnlocked_some id s
  simp only [answer, Logged.value_bind, Logged.value_pure, hs, hasked]

theorem answer_complete {s : Storage} (hs : page.storage = some s) (c : String) :
    (page.answer (.complete c)).value.1 = .level (Level.next? c) := by
  obtain ⟨t, hcomplete, -, -⟩ := Unlocks.complete_some c s
  simp only [answer, Logged.value_bind, Logged.value_pure, hs, hcomplete]

end Storage

/-! ## Who can tell that someone has asked -/

/-- Two pages are the same but for the text that the record of unlocked levels is stored as. -/
def Alike (p q : Page) : Prop :=
  ∃ s t, p.storage = some s ∧ q = { p with storage := some t } ∧ Unlocks.Alike s t

section Alike

variable {p q : Page}

theorem Alike.settings_load (h : p.Alike q) : Settings.load p.storage = Settings.load q.storage := by
  obtain ⟨s, t, hs, rfl, halike⟩ := h
  simp only [Settings.load, hs, Option.bind_some, halike.get?_eq _ Unlocks.storageKey_ne.symm]

theorem Alike.setPace (h : p.Alike q) (text : String) :
    (p.setPace text).value.1 = (q.setPace text).value.1 ∧
      (p.setPace text).value.2.Alike (q.setPace text).value.2 := by
  obtain ⟨s, t, hs, rfl, halike⟩ := h
  obtain ⟨_, _ | r, booted, warnings⟩ := p
  · exact ⟨rfl, s, t, hs, rfl, halike⟩
  · obtain rfl := hs
    unfold Page.setPace
    cases Pace.parse? text with
    | none => exact ⟨rfl, s, t, rfl, rfl, halike⟩
    | some pace => exact ⟨rfl, _, _, rfl, rfl, halike.set Unlocks.storageKey_ne _⟩

/-- **Step.** Only a look at the storage itself can tell such pages apart. -/
theorem Alike.answer (h : p.Alike q) {request : Request} (hrequest : request ≠ .storage) :
    (p.answer request).value.1 = (q.answer request).value.1 ∧
      (p.answer request).value.2.Alike (q.answer request).value.2 := by
  cases request with
  | setPace text => exact h.setPace text
  | isUnlocked id =>
    obtain ⟨s, t, hs, rfl, halike⟩ := h
    obtain ⟨s', hs', hsame⟩ := Unlocks.isUnlocked_some id s
    obtain ⟨t', ht', hsame'⟩ := Unlocks.isUnlocked_some id t
    simp only [Page.answer, Logged.value_bind, Logged.value_pure, hs, hs', ht', halike.stored_eq]
    exact ⟨trivial, s', t', rfl, rfl, (hsame.symm.trans halike).trans hsame'⟩
  | complete c =>
    obtain ⟨s, t, hs, rfl, halike⟩ := h
    obtain ⟨s', hs', hstored, hkeys⟩ := Unlocks.complete_some c s
    obtain ⟨t', ht', hstored', hkeys'⟩ := Unlocks.complete_some c t
    simp only [Page.answer, Logged.value_bind, Logged.value_pure, hs, hs', ht']
    refine ⟨trivial, s', t', rfl, rfl, ?_, fun key hkey => ?_⟩
    · funext id
      rw [hstored, hstored', halike.stored_eq]
    · rw [← hkeys key hkey, ← hkeys' key hkey, halike.get?_eq key hkey]
  | _ =>
    have hload := h.settings_load.symm
    obtain ⟨s, t, hs, rfl, halike⟩ := h
    rw [answer_of_storage p hload (by simp) (by simp) (by simp) hrequest]
    refine ⟨rfl, s, t, ?_, rfl, halike⟩
    rw [storage_answer (by simp) (by simp) (by simp), hs]

/-- A page is the same after someone has asked for a level, but for the stored text. -/
theorem alike_answer_isUnlocked {page : Page} {s : Storage} (hs : page.storage = some s)
    (id : String) : page.Alike (page.answer (.isUnlocked id)).value.2 := by
  obtain ⟨t, hasked, halike⟩ := Unlocks.isUnlocked_some id s
  refine ⟨s, t, hs, ?_, halike⟩
  simp only [Page.answer, Logged.value_bind, Logged.value_pure, hs, hasked]

end Alike

/-- **Unlocked levels survive the storage.** On a page with a storage, whatever is in it, in a sequence
of any requests: completing a level is answered by the next one, and asking for a level is answered by
whether it was unlocked at first or comes after one that has been completed before. So the completed
levels alone count, in whatever order and however often; what is unlocked stays unlocked; and that
someone has asked changes no later reply, if the storage itself is not looked at. -/
theorem unlocks_of_requests {page : Page} {s : Storage} (hs : page.storage = some s) :
    (∀ (requests : List Request) (i : Nat) (c : String), requests[i]? = some (.complete c) →
      (page.answerAll requests).value.1[i]? = some (.level (Level.next? c))) ∧
    (∀ (requests : List Request) (i : Nat) (id : String), requests[i]? = some (.isUnlocked id) →
      ∃ b, (page.answerAll requests).value.1[i]? = some (.flag b) ∧
        (b = true ↔ Unlocks.stored s id = true ∨
          ∃ c, .complete c ∈ requests.take i ∧ Level.next? c = some id)) ∧
    (∀ first second : List Request, (∀ c, .complete c ∈ first ↔ .complete c ∈ second) → ∀ id,
      ((page.answerAll first).value.2.answer (.isUnlocked id)).value.1 =
        ((page.answerAll second).value.2.answer (.isUnlocked id)).value.1) ∧
    (∀ first more id,
      ((page.answerAll first).value.2.answer (.isUnlocked id)).value.1 = .flag true →
      ((page.answerAll (first ++ more)).value.2.answer (.isUnlocked id)).value.1 = .flag true) ∧
    (∀ first id rest, .storage ∉ rest →
      ((page.answerAll (first ++ [.isUnlocked id])).value.2.answerAll rest).value.1 =
        ((page.answerAll first).value.2.answerAll rest).value.1) := by
  refine ⟨fun requests i c hi => ?_, fun requests i id hi => ?_, fun first second hsame id => ?_,
    fun first more id hfirst => ?_, fun first id rest hrest => ?_⟩
  · obtain ⟨t, ht, -⟩ := stored_answerAll hs (requests.take i)
    rw [getElem?_answerAll, hi, Option.map_some, answer_complete ht]
  · obtain ⟨t, ht, hstored⟩ := stored_answerAll hs (requests.take i)
    refine ⟨Unlocks.stored t id, ?_, hstored id⟩
    rw [getElem?_answerAll, hi, Option.map_some, answer_isUnlocked ht]
  · obtain ⟨t, ht, hfirst⟩ := stored_answerAll hs first
    obtain ⟨t', ht', hsecond⟩ := stored_answerAll hs second
    rw [answer_isUnlocked ht, answer_isUnlocked ht', Reply.flag.injEq, Bool.eq_iff_iff, hfirst, hsecond]
    simp only [hsame]
  · obtain ⟨t, ht, -⟩ := stored_answerAll hs first
    obtain ⟨t', ht', hmore⟩ := stored_answerAll ht more
    rw [answer_isUnlocked ht, Reply.flag.injEq] at hfirst
    rw [answerAll_append, answer_isUnlocked ht', (hmore id).mpr (.inl hfirst)]
  · obtain ⟨t, ht, -⟩ := stored_answerAll hs first
    rw [answerAll_append]
    refine (replies_eq (fun p q request hrequest halike => Alike.answer halike hrequest)
      (alike_answer_isUnlocked ht id) fun request hmem => ?_).symm
    rintro rfl
    exact hrest hmem

/-- A storage whose record names one level twice and one that is not built in, escaped. -/
def storageOfRepeats : Storage :=
  ⟨[(Unlocks.storageKey, "\x7b\"level2\":true, \"caf\\u00e9\":true, \"level2\":false\x7d")]⟩

theorem unlocks_of_requests_repeats :
    let page := Page.fresh (some storageOfRepeats)
    let requests : List Request := [.isUnlocked "level2", .openBuiltin "level1", .complete "level1",
      .setPace "fast", .isUnlocked "level2", .isUnlocked "café", .complete "level4"]
    let replies := (page.answerAll requests).value.1
    page.storage = some storageOfRepeats ∧
    replies[0]? = some (Reply.flag false) ∧ replies[2]? = some (Reply.level (some "level2")) ∧
    replies[4]? = some (Reply.flag true) ∧ replies[5]? = some (Reply.flag true) ∧
    replies[6]? = some (Reply.level none) := by
  intro page requests replies
  have hlevel2 : Unlocks.stored storageOfRepeats "level2" = false := by decide +kernel
  have hcafe : Unlocks.stored storageOfRepeats "café" = true := by decide +kernel
  have hstorage : page.storage = some storageOfRepeats := rfl
  obtain ⟨hcomplete, hasked, -⟩ := unlocks_of_requests hstorage
  obtain ⟨b, hb, hfirst⟩ := hasked requests 0 "level2" rfl
  obtain ⟨b', hb', hlater⟩ := hasked requests 4 "level2" rfl
  obtain ⟨b'', hb'', hother⟩ := hasked requests 5 "café" rfl
  have hnext : Level.next? "level1" = some "level2" := by decide
  have hlast : Level.next? "level4" = none := by decide
  have hopened := hcomplete requests 2 "level1" rfl
  have hended := hcomplete requests 6 "level4" rfl
  rw [hnext] at hopened
  rw [hlast] at hended
  refine ⟨rfl, ?_, hopened, ?_, ?_, hended⟩
  · have hlocked : b = false := by simpa [hlevel2] using hfirst
    rw [hb, hlocked]
  · rw [hb', hlater.mpr (.inr ⟨"level1", by simp [requests], hnext⟩)]
  · rw [hb'', hother.mpr (.inl hcafe)]

end Page

end Seahorse
