/-!
# The journal

Operations that a host carries out leave entries in a journal. A `Logged` value is a result together
with the entries that were made on the way to it, oldest first. The entries never influence a result:
`value` of a sequence of operations is the sequence of their values.
-/

namespace Seahorse

/-- How important an entry is. -/
inductive Severity where
  /-- Something is wrong with what was asked for. -/
  | warn
  /-- Something a host wants to know. -/
  | info
  /-- A detail. -/
  | debug
  deriving DecidableEq, Repr

/-- The name of a severity. -/
def Severity.name : Severity → String
  | .warn => "WARN"
  | .info => "INFO"
  | .debug => "DEBUG"

/-- An entry of the journal. -/
structure Entry where
  /-- How important it is. -/
  severity : Severity
  /-- What it says. -/
  text : String
  deriving DecidableEq, Repr

/-- A value and the entries made on the way to it. -/
structure Logged (α : Type) where
  /-- The value. -/
  value : α
  /-- The entries, oldest first. -/
  journal : List Entry

namespace Logged

/-- Makes one entry. -/
def note (severity : Severity) (text : String) : Logged Unit :=
  ⟨(), [⟨severity, text⟩]⟩

/-- Makes entries. -/
def notes (entries : List Entry) : Logged Unit :=
  ⟨(), entries⟩

instance : Monad Logged where
  pure a := ⟨a, []⟩
  bind x f := ⟨(f x.value).value, x.journal ++ (f x.value).journal⟩

@[simp]
theorem value_pure (a : α) : (pure a : Logged α).value = a := rfl

@[simp]
theorem value_bind (x : Logged α) (f : α → Logged β) : (x >>= f).value = (f x.value).value := rfl

@[simp]
theorem journal_pure (a : α) : (pure a : Logged α).journal = [] := rfl

@[simp]
theorem journal_bind (x : Logged α) (f : α → Logged β) :
    (x >>= f).journal = x.journal ++ (f x.value).journal := rfl

end Logged

end Seahorse
