import Seahorse.Command
import Seahorse.Failure
import Seahorse.Text.Blank
import Seahorse.Text.Case

/-!
# Programs as players type them

A program is a sequence of names with commas or blanks between them. A name is taken leniently:
case, underscores and hyphens do not matter, and each command has short forms.
-/

namespace Seahorse

namespace Command

/-- The names of the commands and their short forms. -/
def keys : Command → List String
  | .forward => ["forward", "fwd", "f"]
  | .backward => ["backward", "back", "b"]
  | .turnLeft => ["turnleft", "left", "l"]
  | .turnRight => ["turnright", "right", "r"]
  | .turnAround => ["turnaround", "around", "u"]
  | .wait => ["wait", "w"]

/-- Whether a character may stand anywhere in a name. -/
def isFiller (c : Char) : Bool :=
  c = '_' || c = '-' || c = ' '

/-- What remains of a name when fillers and case are taken away. -/
def keyOf (cs : List Char) : String :=
  String.ofList ((cs.filter fun c => !isFiller c).map Text.lower)

/-- The command with a key. -/
def ofKey? (key : String) : Option Command :=
  all.find? fun c => key ∈ c.keys

/-- The command that a name stands for, blanks around it not counting. -/
def parse (cs : List Char) : Except Failure Command :=
  match ofKey? (keyOf (Text.trim cs)) with
  | some c => .ok c
  | none => .error (.unknownCommand (String.ofList (Text.trim cs)))

end Command

namespace Program

/-- Whether a character separates two names. -/
def isSeparator (c : Char) : Bool :=
  c = ',' || Text.isBlank c

/-- The parts of a text between its separators, some of them empty. -/
def split : List Char → List (List Char)
  | [] => [[]]
  | c :: cs =>
    if isSeparator c then [] :: split cs
    else
      match split cs with
      | [] => [[c]]
      | part :: parts => (c :: part) :: parts

/-- There is always a part, if only an empty one. -/
theorem split_ne_nil (cs : List Char) : split cs ≠ [] := by
  cases cs with
  | nil => simp [split]
  | cons c cs =>
    rw [split]
    split
    · simp
    · split <;> simp

/-- A separator divides the parts before it from the parts behind it. -/
theorem split_append_cons {s : Char} (h : isSeparator s) (a b : List Char) :
    split (a ++ s :: b) = split a ++ split b := by
  induction a with
  | nil => simp [split, h]
  | cons c a ih =>
    rw [List.cons_append, split, split, ih]
    split
    · simp
    · cases hs : split a with
      | nil => exact absurd hs (split_ne_nil a)
      | cons part parts => simp

/-- The names in a text. -/
def tokens (cs : List Char) : List (List Char) :=
  (split cs).filter fun token => !token.isEmpty

/-- The program that a text stands for; the first name that is no command is an error. -/
def parse (text : String) : Except Failure Program :=
  (tokens text.toList).mapM Command.parse

end Program

end Seahorse
