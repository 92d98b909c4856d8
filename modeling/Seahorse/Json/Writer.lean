import Seahorse.Json.Basic

/-!
# Writing JSON

A value has two written forms: the compact one, without a blank between its parts, and the indented
one, with every item and member on a line of its own.
-/

namespace Seahorse.Json

/-- The hexadecimal digit of a number below 16. -/
def hexChar (n : Nat) : Char :=
  Char.ofNat (if n < 10 then 48 + n else 87 + n)

/-- A character inside a string literal. The quote, the backslash and the control characters are
escaped, all others stand for themselves. -/
def escape (c : Char) : List Char :=
  match c with
  | '"' => ['\\', '"']
  | '\\' => ['\\', '\\']
  | '\x08' => ['\\', 'b']
  | '\x0c' => ['\\', 'f']
  | '\n' => ['\\', 'n']
  | '\r' => ['\\', 'r']
  | '\t' => ['\\', 't']
  | c =>
    if c.toNat < 0x20 then ['\\', 'u', '0', '0', hexChar (c.toNat / 16), hexChar (c.toNat % 16)]
    else [c]

/-- A string literal. -/
def quote (s : String) : List Char :=
  '"' :: s.toList.flatMap escape ++ ['"']

/-- The literal of a truth value. -/
def boolText (b : Bool) : List Char :=
  if b then "true".toList else "false".toList

mutual

/-- The compact form. A garbled value has no text of its own and is written as `null`. -/
def compact : Json → List Char
  | .null | .garbled => "null".toList
  | .bool b => boolText b
  | .number n => n.text
  | .string s => quote s
  | .array items => '[' :: compactItems items
  | .object members => '\x7b' :: compactMembers members

/-- The items of an array and its closing bracket. -/
def compactItems : List Json → List Char
  | [] => [']']
  | [j] => compact j ++ [']']
  | j :: rest => compact j ++ ',' :: compactItems rest

/-- The members of an object and its closing bracket. -/
def compactMembers : List (String × Json) → List Char
  | [] => ['\x7d']
  | [(key, j)] => quote key ++ ':' :: compact j ++ ['\x7d']
  | (key, j) :: rest => quote key ++ ':' :: compact j ++ ',' :: compactMembers rest

end

/-- A new line at an indentation of two blanks a level. -/
def newline (level : Nat) : List Char :=
  '\n' :: List.replicate (2 * level) ' '

mutual

/-- The indented form of a value that stands at the given level. -/
def indented (level : Nat) : Json → List Char
  | .null | .garbled => "null".toList
  | .bool b => boolText b
  | .number n => n.text
  | .string s => quote s
  | .array [] => ['[', ']']
  | .array items => '[' :: indentedItems level items
  | .object [] => ['\x7b', '\x7d']
  | .object members => '\x7b' :: indentedMembers level members

/-- The items of an array at the given level and its closing bracket. -/
def indentedItems (level : Nat) : List Json → List Char
  | [] => newline level ++ [']']
  | [j] => newline (level + 1) ++ indented (level + 1) j ++ newline level ++ [']']
  | j :: rest => newline (level + 1) ++ indented (level + 1) j ++ ',' :: indentedItems level rest

/-- The members of an object at the given level and its closing bracket. -/
def indentedMembers (level : Nat) : List (String × Json) → List Char
  | [] => newline level ++ ['\x7d']
  | [(key, j)] =>
    newline (level + 1) ++ quote key ++ ':' :: ' ' :: indented (level + 1) j ++
      newline level ++ ['\x7d']
  | (key, j) :: rest =>
    newline (level + 1) ++ quote key ++ ':' :: ' ' :: indented (level + 1) j ++
      ',' :: indentedMembers level rest

end

/-- The text of a value in compact form. -/
def render (j : Json) : String :=
  String.ofList j.compact

/-- The text of a value in indented form. -/
def renderIndented (j : Json) : String :=
  String.ofList (j.indented 0)

end Seahorse.Json
