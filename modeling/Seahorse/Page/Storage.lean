/-!
# Storage

What a page keeps between visits: a text for each of some keys. A page may have no storage at all;
then nothing is found in it, and nothing is kept.
-/

namespace Seahorse

/-- A map from keys to texts. -/
structure Storage where
  /-- The keys and their texts; the first pair of a key counts. -/
  items : List (String × String)
  deriving DecidableEq, Repr

namespace Storage

/-- The text of a key. -/
def get? (s : Storage) (key : String) : Option String :=
  s.items.lookup key

/-- Puts a pair in the place of the one with the same key, or at the end. -/
def put (key text : String) : List (String × String) → List (String × String)
  | [] => [(key, text)]
  | (other, old) :: rest =>
    if other = key then (key, text) :: rest else (other, old) :: put key text rest

/-- Sets the text of a key. -/
def set (s : Storage) (key text : String) : Storage :=
  ⟨put key text s.items⟩

theorem lookup_put (key text other : String) (items : List (String × String)) :
    (put key text items).lookup other = if other = key then some text else items.lookup other := by
  induction items with
  | nil =>
    by_cases h : other = key
    · simp [put, h]
    · simp [put, List.lookup_cons, h, beq_eq_false_iff_ne.mpr h]
  | cons item rest ih =>
    obtain ⟨k, old⟩ := item
    by_cases hk : k = key
    · by_cases h : other = key
      · simp [put, hk, h]
      · simp [put, List.lookup_cons, hk, h, beq_eq_false_iff_ne.mpr h]
    · by_cases h : other = k
      · simp [put, hk, h]
      · simp [put, List.lookup_cons, hk, ih, beq_eq_false_iff_ne.mpr h]

/-- The text that was set is found again. -/
@[simp]
theorem get?_set_self (s : Storage) (key text : String) : (s.set key text).get? key = some text := by
  simp [get?, set, lookup_put]

/-- The other keys keep their texts. -/
theorem get?_set_of_ne (s : Storage) {key other : String} (text : String) (h : other ≠ key) :
    (s.set key text).get? other = s.get? other := by
  simp [get?, set, lookup_put, h]

end Storage

end Seahorse
