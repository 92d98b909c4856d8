import Seahorse.Journal
import Seahorse.Level.Builtin

/-!
# Unlocked levels

A record of which levels a player may open, by level id: a `MemoryProgress`, with the operations of a
`ProgressStore`. The entries stand in the order of their ids, each id once, so records with the same
entries are equal.
-/

namespace Seahorse

/-- A record of unlocked levels (`MemoryProgress`). -/
structure Unlocks where
  /-- Level ids, in increasing order, and whether they are unlocked. -/
  entries : List (String × Bool)
  deriving DecidableEq, Repr

namespace Unlocks

/-- Puts an entry in its place in a list in order, over one with the same id. -/
def insert (id : String) (unlocked : Bool) : List (String × Bool) → List (String × Bool)
  | [] => [(id, unlocked)]
  | (other, flag) :: rest =>
    if id < other then (id, unlocked) :: (other, flag) :: rest
    else if id = other then (id, unlocked) :: rest
    else (other, flag) :: insert id unlocked rest

/-- Whether a level is unlocked; one without an entry is not. -/
def get (u : Unlocks) (id : String) : Bool :=
  (u.entries.lookup id).getD false

/-- Records whether a level is unlocked. -/
def set (u : Unlocks) (id : String) (unlocked : Bool) : Unlocks :=
  ⟨insert id unlocked u.entries⟩

theorem lookup_insert (id other : String) (unlocked : Bool) (entries : List (String × Bool)) :
    (insert id unlocked entries).lookup other =
      if other = id then some unlocked else entries.lookup other := by
  induction entries with
  | nil =>
    by_cases h : other = id
    · simp [insert, h]
    · simp [insert, List.lookup_cons, h, beq_eq_false_iff_ne.mpr h]
  | cons entry rest ih =>
    obtain ⟨k, flag⟩ := entry
    by_cases hlt : id < k
    · by_cases h : other = id
      · simp [insert, hlt, h]
      · simp [insert, List.lookup_cons, hlt, h, beq_eq_false_iff_ne.mpr h]
    · by_cases hk : id = k
      · subst hk
        by_cases h : other = id
        · simp [insert, h]
        · simp [insert, List.lookup_cons, h, beq_eq_false_iff_ne.mpr h]
      · by_cases h : other = k
        · simp [insert, hlt, hk, h, Ne.symm hk]
        · simp [insert, List.lookup_cons, hlt, hk, ih, beq_eq_false_iff_ne.mpr h]

/-- What was recorded is found again. -/
@[simp]
theorem get_set_self (u : Unlocks) (id : String) (unlocked : Bool) :
    (u.set id unlocked).get id = unlocked := by
  simp [get, set, lookup_insert]

/-- The other levels stay as they are. -/
theorem get_set_of_ne (u : Unlocks) {id other : String} (unlocked : Bool) (h : other ≠ id) :
    (u.set id unlocked).get other = u.get other := by
  simp [get, set, lookup_insert, h]

/-- Records several entries in turn. -/
def setAll (u : Unlocks) (entries : List (String × Bool)) : Unlocks :=
  entries.foldl (fun u (id, unlocked) => u.set id unlocked) u

/-- The record of a new player: the first level is unlocked, the other built-in levels are not. -/
def default : Unlocks :=
  ⟨Level.builtinIds.map fun id => (id, Level.builtinIds.head? == some id)⟩

/-- The unlocked built-in levels in the order they are played. -/
def unlocked (u : Unlocks) : List String :=
  Level.builtinIds.filter u.get

/-- Unlocks the level after a completed one and returns its id (`unlock_next`). -/
def unlockNext (u : Unlocks) (completed : String) : Option String × Unlocks :=
  match Level.next? completed with
  | none => (none, u)
  | some next => (some next, u.set next true)

/-- The entries of unlocking the level after a completed one: only what is new is noted. -/
def unlockEntries (u : Unlocks) (completed : String) : List Entry :=
  match Level.next? completed with
  | none => []
  | some next =>
    if u.get next then [] else [⟨.info, s!"Unlocked {next} after completing {completed}"⟩]

end Unlocks

end Seahorse
