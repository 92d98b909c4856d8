import Seahorse.Json.Numeral

/-!
# JSON values

A value keeps what a text says and nothing of how it says it: blanks are gone, escapes are resolved,
and a number is its `Numeral`. Members of an object stand in the order of the text, with repetitions.
-/

namespace Seahorse

/-- A JSON value. -/
inductive Json where
  /-- The literal `null`. -/
  | null
  /-- A truth value. -/
  | bool (b : Bool)
  /-- A number, as written. -/
  | number (n : Numeral)
  /-- A string. -/
  | string (s : String)
  /-- An array. -/
  | array (items : List Json)
  /-- An object. -/
  | object (members : List (String × Json))
  /-- A value that can be skipped but stands for nothing: a string in which an escape is half of a
  surrogate pair, or an object with such a key. -/
  | garbled

namespace Json

mutual

/-- Whether a value can be held in memory as a whole: every string spells a text, every number has a
value, and containers nest at most `room` deep. -/
def holdable (room : Nat) : Json → Bool
  | .garbled => false
  | .number n => n.quantity?.isSome
  | .array items => 0 < room && itemsHoldable (room - 1) items
  | .object members => 0 < room && membersHoldable (room - 1) members
  | .null | .bool _ | .string _ => true

/-- The same, for the items of an array. -/
def itemsHoldable (room : Nat) : List Json → Bool
  | [] => true
  | j :: rest => holdable room j && itemsHoldable room rest

/-- The same, for the members of an object. -/
def membersHoldable (room : Nat) : List (String × Json) → Bool
  | [] => true
  | (_, j) :: rest => holdable room j && membersHoldable room rest

end

end Json

end Seahorse
