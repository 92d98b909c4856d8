import Seahorse.Codec.Player
import Seahorse.Page.Storage

/-!
# A player's data in storage

Settings and the record of unlocked levels are kept as JSON texts, each under a key of its own. A
text that cannot be read counts as missing.
-/

namespace Seahorse

namespace Settings

/-- The key of the settings. -/
def storageKey : String := "syntax_saga_settings"

/-- The stored settings, or the default ones. -/
def load (storage : Option Storage) : Logged Settings :=
  match storage.bind (·.get? storageKey) with
  | none => ⟨default, [⟨.info, "Using default settings"⟩]⟩
  | some text =>
    match ofText? text with
    | some settings => ⟨settings, [⟨.info, "Loaded settings from LocalStorage"⟩]⟩
    | none =>
      ⟨default, [⟨.warn, "Ignoring stored settings"⟩, ⟨.info, "Using default settings"⟩]⟩

/-- Stores the settings. -/
def save (settings : Settings) (storage : Option Storage) : Logged (Option Storage) :=
  match storage with
  | none => pure none
  | some s => ⟨some (s.set storageKey settings.text), [⟨.info, "Settings saved"⟩]⟩

end Settings

namespace Unlocks

/-- The key of the record. -/
def storageKey : String := "syntax_saga_progress"

/-- Stores the record. -/
def save (u : Unlocks) (storage : Option Storage) : Option Storage :=
  storage.map (·.set storageKey u.text)

/-- The record of a new player, which is stored at once. -/
def startFresh (storage : Option Storage) : Logged (Unlocks × Option Storage) :=
  ⟨(default, default.save storage), [⟨.info, "No progress found, starting fresh"⟩]⟩

/-- The stored record, or that of a new player (`LocalStorageProgress`). -/
def load (storage : Option Storage) : Logged (Unlocks × Option Storage) :=
  match storage.bind (·.get? storageKey) with
  | none => startFresh storage
  | some text =>
    match ofText? text with
    | some u => ⟨(u, storage), [⟨.info, s!"Loaded progress ({u.unlocked.length} unlocked)"⟩]⟩
    | none => do
      Logged.note .warn "Stored progress unreadable, resetting"
      startFresh storage

/-- Whether a level is unlocked in the stored record. -/
def isUnlocked (id : String) (storage : Option Storage) : Logged (Bool × Option Storage) := do
  let (u, storage) ← load storage
  pure (u.get id, storage)

/-- Unlocks the level after a completed one in the stored record and returns its id. -/
def complete (completed : String) (storage : Option Storage) :
    Logged (Option String × Option Storage) := do
  let (u, storage) ← load storage
  Logged.notes (u.unlockEntries completed)
  match u.unlockNext completed with
  | (none, _) => pure (none, storage)
  | (some next, u) => pure (some next, u.save storage)

end Unlocks

end Seahorse
