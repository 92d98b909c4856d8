import Mathlib.Data.List.Basic
import Seahorse.Proofs.UnlockRecord

/-!
# A record of unlocked levels and its text are interchangeable

Whoever holds a record may write it out, drop it and read the text instead, as often as they like.
Reading puts the entries of the text on top of those of a new player, so the record comes back as it
was only because every operation keeps an entry for each built-in level, the first one included when
it is locked.
-/

namespace Seahorse

namespace Unlocks

/-- An operation on a record. -/
inductive Op where
  | get (id : String)
  | set (id : String) (unlocked : Bool)
  | unlockNext (completed : String)
  | unlocked
  | text
  /-- Puts what is read back from the text of the record in its place. -/
  | reload
  deriving DecidableEq

/-- What an operation answers. -/
inductive Answer where
  | done
  | flag (unlocked : Bool)
  | next (id : Option String)
  | levels (ids : List String)
  | text (json : String)
  | reloaded
  | unreadable
  deriving DecidableEq

/-- Carries out an operation; a text that cannot be read leaves the record as it is. -/
def perform (u : Unlocks) : Op → Answer × Unlocks
  | .get id => (.flag (u.get id), u)
  | .set id unlocked => (.done, u.set id unlocked)
  | .unlockNext completed => (.next (u.unlockNext completed).1, (u.unlockNext completed).2)
  | .unlocked => (.levels u.unlocked, u)
  | .text => (.text u.text, u)
  | .reload =>
    match ofText? u.text with
    | some v => (.reloaded, v)
    | none => (.unreadable, u)

/-- Carries out operations in turn. -/
def performAll (u : Unlocks) : List Op → List Answer × Unlocks
  | [] => ([], u)
  | op :: ops =>
    ((u.perform op).1 :: ((u.perform op).2.performAll ops).1, ((u.perform op).2.performAll ops).2)

/-- The entries that an operation sets. -/
def Op.writes : Op → List (String × Bool)
  | .set id flag => [(id, flag)]
  | .unlockNext completed => (Level.next? completed).toList.map (·, true)
  | _ => []

theorem setAll_append (u : Unlocks) (entries entries' : List (String × Bool)) :
    u.setAll (entries ++ entries') = (u.setAll entries).setAll entries' :=
  List.foldl_append

/-- Only a reload answers that it has succeeded. -/
theorem perform_ne_reloaded (u : Unlocks) {op : Op} (hop : op ≠ .reload) :
    (u.perform op).1 ≠ .reloaded := by
  cases op with
  | reload => exact absurd rfl hop
  | _ => exact Answer.noConfusion

/-- A record with an entry for each built-in level is reloaded as it is. -/
theorem Whole.perform_reload {u : Unlocks} (h : u.Whole) : u.perform .reload = (.reloaded, u) := by
  rw [perform, h.ofText?_text]

/-- **Step.** An operation sets its entries, and does nothing else to the record. -/
theorem Whole.perform_eq_setAll {u : Unlocks} (h : u.Whole) (op : Op) :
    (u.perform op).2 = u.setAll op.writes := by
  cases op with
  | unlockNext completed =>
    show (u.unlockNext completed).2 = u.setAll ((Level.next? completed).toList.map (·, true))
    unfold unlockNext
    cases Level.next? completed <;> rfl
  | reload => rw [h.perform_reload]; rfl
  | _ => rfl

theorem Whole.perform {u : Unlocks} (h : u.Whole) (op : Op) : (u.perform op).2.Whole := by
  rw [h.perform_eq_setAll op]
  exact h.setAll op.writes

/-- **Run.** So a sequence of operations is the entries that it sets. -/
theorem Whole.performAll_eq_setAll {u : Unlocks} (h : u.Whole) (ops : List Op) :
    (u.performAll ops).2 = u.setAll (ops.flatMap Op.writes) := by
  induction ops generalizing u with
  | nil => rfl
  | cons op ops ih =>
    rw [List.flatMap_cons, setAll_append, ← h.perform_eq_setAll op]
    exact ih (h.perform op)

/-- Without its reloads a sequence of operations leaves the same record, and all that is missing of
the answers is that the reloads succeeded. -/
theorem Whole.performAll_filter {u : Unlocks} (h : u.Whole) (ops : List Op) :
    u.performAll (ops.filter (· ≠ .reload)) =
      ((u.performAll ops).1.filter (· ≠ .reloaded), (u.performAll ops).2) := by
  induction ops generalizing u with
  | nil => rfl
  | cons op ops ih =>
    by_cases hop : op = .reload
    · subst hop
      rw [List.filter_cons_of_neg (by simp), ih h, Unlocks.performAll, h.perform_reload,
        List.filter_cons_of_neg (by simp)]
    · have hanswer := u.perform_ne_reloaded hop
      rw [List.filter_cons_of_pos (by simpa using hop), Unlocks.performAll, ih (h.perform op),
        Unlocks.performAll, List.filter_cons_of_pos (by simpa using hanswer)]

/-- Every reload succeeds, and no other operation answers that it did. -/
theorem Whole.performAll_reloaded_iff {u : Unlocks} (h : u.Whole) (ops : List Op) (i : Nat) :
    (u.performAll ops).1[i]? = some .reloaded ↔ ops[i]? = some .reload := by
  induction ops generalizing u i with
  | nil => simp [Unlocks.performAll]
  | cons op ops ih =>
    cases i with
    | succ i => exact ih (h.perform op) i
    | zero =>
      simp only [Unlocks.performAll, List.getElem?_cons_zero, Option.some_inj]
      by_cases hop : op = .reload
      · subst hop
        simp [h.perform_reload]
      · exact iff_of_false (u.perform_ne_reloaded hop) hop

/-- There is an entry for each built-in level, since a new player's record has one. -/
theorem Whole.exists_entry {u : Unlocks} (h : u.Whole) {id : String} (hid : id ∈ Level.builtinIds) :
    ∃ unlocked, (id, unlocked) ∈ u.entries := by
  cases hlookup : u.entries.lookup id with
  | some unlocked => exact ⟨unlocked, (lookup_eq_some_iff_mem h.ordered.nodup).mp hlookup⟩
  | none =>
    have hdefault : ∀ id ∈ Level.builtinIds, default.entries.lookup id ≠ none := by decide
    exact absurd (h.covers id hlookup) (hdefault id hid)

/-- A built-in level is listed if its entry says that it is unlocked. -/
theorem Whole.mem_unlocked {u : Unlocks} (h : u.Whole) (id : String) :
    id ∈ u.unlocked ↔ id ∈ Level.builtinIds ∧ (id, true) ∈ u.entries := by
  have hget : u.get id = true ↔ (id, true) ∈ u.entries := by
    rw [← lookup_eq_some_iff_mem h.ordered.nodup, get]
    cases u.entries.lookup id <;> simp
  rw [unlocked, List.mem_filter, hget]

/-- **Storing is transparent.** Take the record of a new player or one read from any text, and any
sequence of operations with reloads anywhere among them. Every reload succeeds, and without the
reloads the other operations answer the same and leave the same record. That record is read back from
its text as it is, and says of each level what was set last. It has an entry for each built-in level,
and lists as unlocked those built-in levels, in the order they are played, whose entry says so. -/
theorem transparent_of_operations {u : Unlocks}
    (hu : u = default ∨ ∃ text, ofText? text = some u) (ops : List Op) :
    let v := (u.performAll ops).2
    (∀ i : Nat, (u.performAll ops).1[i]? = some .reloaded ↔ ops[i]? = some .reload) ∧
    u.performAll (ops.filter (· ≠ .reload)) = ((u.performAll ops).1.filter (· ≠ .reloaded), v) ∧
    ofText? v.text = some v ∧
    (∀ id, v.get id = ((ops.flatMap Op.writes).reverse.lookup id).getD (u.get id)) ∧
    (∀ id ∈ Level.builtinIds, ∃ unlocked, (id, unlocked) ∈ v.entries) ∧
    v.unlocked.Sublist Level.builtinIds ∧
    (∀ id, id ∈ v.unlocked ↔ id ∈ Level.builtinIds ∧ (id, true) ∈ v.entries) := by
  have hwhole : u.Whole := by
    rcases hu with rfl | ⟨text, htext⟩
    · exact whole_default
    · exact whole_of_ofText? htext
  intro v
  have hset : v = u.setAll (ops.flatMap Op.writes) := hwhole.performAll_eq_setAll ops
  have hv : v.Whole := by
    rw [hset]
    exact hwhole.setAll _
  refine ⟨hwhole.performAll_reloaded_iff ops, hwhole.performAll_filter ops, hv.ofText?_text,
    fun id => ?_, fun id hid => ?_, List.filter_sublist, hv.mem_unlocked⟩
  · rw [hset, get_setAll]
  · exact hv.exists_entry hid

/-- A text that names one level twice and one that is not built in, escaped. -/
def repeatsText : String :=
  "\x7b\"level2\":true, \"caf\\u00e9\":true, \"level2\":false\x7d"

theorem transparent_of_operations_repeats :
    ∃ u, ofText? repeatsText = some u ∧
      let ops : List Op := [.set "level1" false, .reload, .get "café", .set "na\"ïve" true, .reload,
        .unlockNext "level2", .reload, .unlocked, .unlockNext "level4"]
      let v := (u.performAll ops).2
      (u.performAll ops).1[4]? = some .reloaded ∧
      v.get "level1" = false ∧ v.get "level2" = false ∧ v.get "level3" = true ∧
      v.get "café" = true ∧ v.get "na\"ïve" = true ∧
      (u.performAll (ops.filter (· ≠ .reload))).2 = v ∧ ofText? v.text = some v ∧
      (∃ unlocked, ("level1", unlocked) ∈ v.entries) ∧ ("level3", true) ∈ v.entries := by
  obtain ⟨u, hu, hlevel2, hcafe⟩ : ∃ u, ofText? repeatsText = some u ∧
      u.get "level2" = false ∧ u.get "café" = true := by
    refine ⟨(ofText? repeatsText).getD default, ?_, ?_, ?_⟩ <;> decide +kernel
  refine ⟨u, hu, ?_⟩
  intro ops v
  obtain ⟨hreload, hplain, hback, hget, hentry, -, hlisted⟩ :=
    transparent_of_operations (.inr ⟨_, hu⟩) ops
  have hlevel3 : v.get "level3" = true := hget "level3"
  refine ⟨(hreload 4).mpr rfl, hget "level1", (hget "level2").trans hlevel2, hlevel3,
    (hget "café").trans hcafe, hget "na\"ïve", by rw [hplain], hback,
    hentry "level1" (by decide), ?_⟩
  exact ((hlisted "level3").mp (List.mem_filter.mpr ⟨by decide, hlevel3⟩)).2

end Unlocks

end Seahorse
