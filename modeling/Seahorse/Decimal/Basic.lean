/-!
# Decimal digits

A digit is a `Fin 10`, and a digit list has the leading digit first.
-/

namespace Seahorse

/-- A decimal digit. -/
abbrev Digit := Fin 10

namespace Decimal

/-- The character that a digit is written as. -/
def digitChar (d : Digit) : Char :=
  Char.ofNat (48 + d.val)

/-- The digit that a character stands for. -/
def digitOf? (c : Char) : Option Digit :=
  if h : 48 ≤ c.toNat ∧ c.toNat < 58 then some ⟨c.toNat - 48, by omega⟩ else none

/-- The last `width` digits of a number, with zeros in front if it has fewer. -/
def digitsOfWidth : Nat → Nat → List Digit
  | 0, _ => []
  | width + 1, n => digitsOfWidth width (n / 10) ++ [Fin.ofNat 10 n]

/-- The number that a digit list denotes. -/
def value (ds : List Digit) : Nat :=
  ds.foldl (fun n d => 10 * n + d.val) 0

/-- How many digits a number has; zero has one. -/
def length (n : Nat) : Nat :=
  (Nat.toDigits 10 n).length

/-- The digits of a number, without zeros in front. -/
def digits (n : Nat) : List Digit :=
  digitsOfWidth (length n) n

/-- The text of a digit list. -/
def text (ds : List Digit) : List Char :=
  ds.map digitChar

/-- A power of ten. -/
def tenPow (n : Nat) : Nat :=
  Nat.pow 10 n

/-- The quotient rounded to the nearest number, a tie going to the even one. -/
def roundDiv (num den : Nat) : Nat :=
  let q := num / den
  let r := num % den
  if 2 * r < den ∨ (2 * r = den ∧ q % 2 = 0) then q else q + 1

end Decimal

end Seahorse
