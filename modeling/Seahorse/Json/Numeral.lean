import Seahorse.Decimal.Basic
import Seahorse.Decimal.Shortest

/-!
# Numerals

A numeral is a number as a JSON text writes it: a sign, a whole part, perhaps a fraction and perhaps
an exponent. What it denotes is an integer, if it is written as one and fits 64 bits, and otherwise a
double.

The double is found by collecting the leading digits into a 64-bit significand, for as long as they
fit, and scaling that by a power of ten with one division or multiplication. This is exact for the
numerals that `Numeral.ofScalar?` writes with few digits and is off by a last bit for some longer
ones, which is why the significand and the scaling are spelled out here.
-/

namespace Seahorse

/-- A number as it is written. -/
structure Numeral where
  /-- Whether a minus sign stands in front. -/
  negative : Bool
  /-- The digits before the point. -/
  whole : Nat
  /-- The digits behind the point; without any there is no point. -/
  fraction : List Digit
  /-- The power of ten, if one is written. -/
  exponent : Option Int
  deriving DecidableEq

/-- What a numeral denotes. -/
inductive Quantity where
  /-- A natural number below `2^64`. -/
  | natural (n : Nat)
  /-- The number `-n`, not below `-2^63`. -/
  | negative (n : Nat)
  /-- Any other number. -/
  | real (d : Double)

namespace Numeral

/-! ## Reading -/

/-- Appends digits to a 64-bit significand for as long as it holds them, and returns the digits that
are left over. -/
def absorb (significand : Nat) : List Digit → Nat × List Digit
  | [] => (significand, [])
  | d :: ds =>
    if 10 * significand + d.val < UInt64.size then absorb (10 * significand + d.val) ds
    else (significand, d :: ds)

/-- The double nearest to a natural number. -/
def doubleOfNat (n : Nat) : Double :=
  ⟨Float.Model.pack (.round .binary64 .positive n 0)⟩

/-- The double nearest to a power of ten. -/
def tenTo (n : Nat) : Double :=
  Float.ofScientific 1 false n

/-- The largest power of ten that a double reaches. -/
def maxPower : Nat := 308

/-- The significand times a power of ten, in doubles; nothing if that is too large. A power beyond
the smallest is divided by in two goes, after which nothing is left. -/
def scale? (significand : Nat) (e : Int) : Option Double :=
  let f := doubleOfNat significand
  if significand = 0 then some f
  else if maxPower < e then none
  else if 0 ≤ e then
    let product := f * tenTo e.toNat
    if product.isInf then none else some product
  else if -maxPower ≤ e then some (f / tenTo e.natAbs)
  else if -(2 * maxPower) ≤ e then some (f / tenTo maxPower / tenTo (e.natAbs - maxPower))
  else some (doubleOfNat 0)

/-- The double that a numeral denotes; nothing if it is too large. Digits of the whole part that do
not fit the significand count as powers of ten, those of the fraction are dropped. -/
def double? (n : Numeral) : Option Double :=
  let (significand, dropped) := absorb 0 (Decimal.digits n.whole)
  let (significand', unused) := absorb significand n.fraction
  let e : Int := dropped.length - (n.fraction.length - unused.length : Nat) + n.exponent.getD 0
  (scale? significand' e).map fun d => if n.negative then -d else d

/-- Whether the numeral is written as an integer. -/
def isInteger (n : Numeral) : Bool :=
  n.fraction.isEmpty && n.exponent.isNone

/-- What the numeral denotes; nothing if it is too large for a double. Minus zero is a double. -/
def quantity? (n : Numeral) : Option Quantity :=
  if n.isInteger && !n.negative && n.whole < UInt64.size then some (.natural n.whole)
  else if n.isInteger && n.negative && 0 < n.whole && n.whole ≤ UInt64.size / 2 then
    some (.negative n.whole)
  else n.double?.map .real

/-- The scalar that a numeral denotes. An integer is rounded once, any other number by way of a
double. -/
def scalar? (n : Numeral) : Option Scalar :=
  n.quantity?.map fun
    | .natural k => Scalar.ofNat k
    | .negative k => Scalar.ofInt (-k)
    | .real d => Scalar.ofDouble d

/-- The natural number below `bound` that a numeral is written as. -/
def natBelow? (bound : Nat) (n : Numeral) : Option Nat :=
  if n.isInteger && !n.negative && n.whole < bound then some n.whole else none

/-! ## Writing -/

/-- The numeral of a natural number. -/
def ofNat (n : Nat) : Numeral :=
  ⟨false, n, [], none⟩

/-- Which numbers are written without an exponent: those whose leading digit stands at a power of
ten from `least` to `greatest`. -/
structure Style where
  /-- The least power of ten of the leading digit. -/
  least : Int
  /-- The greatest power of ten of the leading digit. -/
  greatest : Int

/-- Scalars are written without an exponent from a millionth up to below ten million million. -/
def scalarStyle : Style := ⟨-6, 12⟩

/-- Doubles are written without an exponent from a hundred-thousandth up to below `10^16`. -/
def doubleStyle : Style := ⟨-5, 15⟩

/-- The numeral of `± significand · 10 ^ exponent`. Without an exponent there is always a point with
at least one digit behind it; with one, the point follows the leading digit, and a single digit has
none. -/
def ofScaled (style : Style) (negative : Bool) (d : Decimal.Scaled) : Numeral :=
  let tail := Decimal.length d.significand - 1
  let lead := d.exponent + tail
  if style.least ≤ lead ∧ lead ≤ style.greatest then
    if 0 ≤ d.exponent then
      ⟨negative, d.significand * Decimal.tenPow d.exponent.toNat, Decimal.digitsOfWidth 1 0, none⟩
    else
      let places := d.exponent.natAbs
      ⟨negative, d.significand / Decimal.tenPow places,
        Decimal.digitsOfWidth places d.significand, none⟩
  else
    ⟨negative, d.significand / Decimal.tenPow tail, Decimal.digitsOfWidth tail d.significand,
      some lead⟩

/-- The numeral of a finite scalar: the fewest digits that tell it apart from every other. -/
def ofScalar? (x : Scalar) : Option Numeral :=
  (Decimal.ofScalar? x).map fun (negative, d) => ofScaled scalarStyle negative d

/-- The numeral of a finite double. -/
def ofDouble? (x : Double) : Option Numeral :=
  (Decimal.ofDouble? x).map fun (negative, d) => ofScaled doubleStyle negative d

/-- The text of an exponent, which always has a sign. -/
def exponentText (e : Int) : List Char :=
  'e' :: (if e < 0 then '-' else '+') :: Decimal.text (Decimal.digits e.natAbs)

/-- The text of a numeral. -/
def text (n : Numeral) : List Char :=
  (if n.negative then ['-'] else []) ++ Decimal.text (Decimal.digits n.whole) ++
    (if n.fraction.isEmpty then [] else '.' :: Decimal.text n.fraction) ++
    (n.exponent.map exponentText).getD []

end Numeral

/-- The text of a scalar, also of one that is not finite. -/
def Scalar.text (x : Scalar) : String :=
  match Numeral.ofScalar? x with
  | some n => String.ofList n.text
  | none => if x.isNaN then "NaN" else if x < 0 then "-inf" else "inf"

/-- The text of a double, also of one that is not finite. -/
def Double.text (x : Double) : String :=
  match Numeral.ofDouble? x with
  | some n => String.ofList n.text
  | none => if x.isNaN then "NaN" else if x < 0 then "-inf" else "inf"

end Seahorse
