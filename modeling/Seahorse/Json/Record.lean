import Seahorse.Json.Basic

/-!
# Records and variants in JSON

A record with named fields may be written in two ways: as an object, in any order and with members
that mean nothing to it, or as an array of the fields in their order. `slots?` reduces both to one
view, a list with a place for every field, from which a reader takes the fields.

A choice without data is written as its name, or as an object with that name as its only key. A choice
with data is a record that carries its name in a tag.
-/

namespace Seahorse.Json

/-- The value of a key that occurs at most once. The outer `none` is a repeated key, the inner one a
key that is missing. -/
def member? (members : List (String × Json)) (key : String) : Option (Option Json) :=
  match members.filter (·.1 = key) with
  | [] => some none
  | [(_, j)] => some (some j)
  | _ => none

/-- The fields of a record with the given names. In an array the last fields may be missing, but there
must be no more items than fields. -/
def slots? (names : List String) : Json → Option (List (Option Json))
  | .object members => names.mapM (member? members)
  | .array items =>
    if items.length ≤ names.length then
      some (items.map some ++ List.replicate (names.length - items.length) none)
    else none
  | _ => none

/-- A field that must be there. -/
def required (read? : Json → Option α) (slot : Option Json) : Option α :=
  slot.bind read?

/-- A field that stands for a default if it is missing. -/
def optional (default : α) (read? : Json → Option α) (slot : Option Json) : Option α :=
  match slot with
  | none => some default
  | some j => read? j

/-- The name of a choice without data. A `held` value, one that was read into memory before it was
known what it stands for, may also have an empty object behind its name. -/
def choice? (held : Bool) : Json → Option String
  | .string s => some s
  | .object [(s, .null)] => some s
  | .object [(s, .object [])] => if held then some s else none
  | _ => none

/-- The tag of a choice with data, and the record without the tag. -/
def tagged? (tag : String) : Json → Option (String × Json)
  | .object members =>
    match member? members tag with
    | some (some (.string s)) => some (s, .object (members.filter (·.1 ≠ tag)))
    | _ => none
  | .array (.string s :: items) => some (s, .array items)
  | _ => none

/-- How deep containers may nest in a value that is held in memory, those around it included. -/
def maxDepth : Nat := 127

/-- The list that an array stands for. -/
def list? (read? : Json → Option α) : Json → Option (List α)
  | .array items => items.mapM read?
  | _ => none

/-- A truth value. -/
def bool? : Json → Option Bool
  | .bool b => some b
  | _ => none

/-- A text. -/
def string? : Json → Option String
  | .string s => some s
  | _ => none

/-- A natural number below `bound`. -/
def natBelow? (bound : Nat) : Json → Option Nat
  | .number n => n.natBelow? bound
  | _ => none

/-- A 32-bit word. -/
def word32? (j : Json) : Option UInt32 :=
  (j.natBelow? UInt32.size).map UInt32.ofNat

/-- A number that fits a 64-bit word. -/
def index? (j : Json) : Option Nat :=
  j.natBelow? UInt64.size

/-- A scalar. -/
def scalar? : Json → Option Scalar
  | .number n => n.scalar?
  | _ => none

/-- The JSON value of a natural number. -/
def ofNat (n : Nat) : Json :=
  .number (.ofNat n)

/-- The JSON value of a scalar; one that is not finite has none and becomes `null`. -/
def ofScalar (x : Scalar) : Json :=
  ((Numeral.ofScalar? x).map .number).getD .null

end Seahorse.Json
