import Seahorse.Decimal.Basic
import Seahorse.Scalar

/-!
# The shortest decimal that reads back

A binary number `m · 2^q` is the nearest of its kind to every real in an interval around it: half a
unit up, and half a unit down, or a quarter of one where the numbers below are twice as dense. The
ends belong to the interval if `m` is even. The shortest decimal is a multiple of the largest power
of ten that has a multiple in the interval, and of those multiples the nearest to the number. If
two are equally near, the even one is taken.

Only the two multiples next to the number need a test: if any multiple lies in the interval, so does
one of these.
-/

namespace Seahorse.Decimal

open Float.Model (UnpackedFloat)

/-- The decimal `significand · 10 ^ exponent`. -/
structure Scaled where
  /-- The digits, as one number. -/
  significand : Nat
  /-- The power of ten of the last digit. -/
  exponent : Int
  deriving DecidableEq, Repr

/-- The reals that round to one positive binary number, in units of a common denominator. -/
structure Interval where
  /-- The number itself. -/
  middle : Nat
  /-- The lower end. -/
  low : Nat
  /-- The upper end. -/
  high : Nat
  /-- What the three numerators are divided by. -/
  denominator : Nat
  /-- Whether the ends belong to the interval. -/
  closed : Bool

/-- The interval of `m · 2^q`; `dense` says that the numbers below it are twice as dense as those
above. -/
def Interval.around (m : Nat) (q : Int) (dense : Bool) : Interval :=
  let up := (q - 2).toNat
  let down := (2 - q).toNat
  { middle := (4 * m) <<< up
    low := (4 * m - if dense then 1 else 2) <<< up
    high := (4 * m + 2) <<< up
    denominator := 1 <<< down
    closed := m % 2 = 0 }

/-- The multiple of `10 ^ k` in the interval that is nearest to the middle, if there is one. -/
def Interval.multiple? (i : Interval) (k : Int) : Option Nat :=
  let scale := tenPow (-k).toNat
  let unit := i.denominator * tenPow k.toNat
  let inside (c : Nat) : Bool :=
    if i.closed then i.low * scale ≤ c * unit && c * unit ≤ i.high * scale
    else i.low * scale < c * unit && c * unit < i.high * scale
  let below := i.middle * scale / unit
  let rest := i.middle * scale % unit
  match inside below, inside (below + 1) with
  | false, false => none
  | true, false => some below
  | false, true => some (below + 1)
  | true, true =>
    if 2 * rest < unit ∨ (2 * rest = unit ∧ below % 2 = 0) then some below else some (below + 1)

/-- The first hit on the powers of ten from `10 ^ k` downward. -/
def Interval.scan (i : Interval) : Nat → Int → Scaled
  | 0, k => ⟨i.middle * tenPow (-k).toNat / (i.denominator * tenPow k.toNat), k⟩
  | count + 1, k =>
    match i.multiple? k with
    | some c => ⟨c, k⟩
    | none => i.scan count (k - 1)

/-- How many powers of ten are looked at: seventeen digits tell any two doubles apart, and the scan
starts at most three places above the leading digit. -/
def scanLength : Nat := 20

/-- The shortest decimal in the interval of `m · 2^q`. The scan starts at a power of ten above the
number. -/
def shortest (m : Nat) (q : Int) (dense : Bool) : Scaled :=
  let top := (q + m.log2 + 1) * 30103 / 100000 + 1
  (Interval.around m q dense).scan scanLength top

/-- Whether the numbers below `m · 2^q` are twice as dense as those above: the mantissa is the least
of a normal number, and there are smaller exponents. -/
def isDense (format : Float.Model.Format) (m : Nat) (q : Int) : Bool :=
  m == 1 <<< format.mantissaBitsWithoutImplicit && format.minExponent < q

/-- Sign and shortest decimal of a number of a binary format; zero is `0 · 10⁰`. Nothing for an
infinity or a NaN. -/
def ofUnpacked? (format : Float.Model.Format) : UnpackedFloat → Option (Bool × Scaled)
  | .finite s m q _ => some (s == .negative, shortest m q (isDense format m q))
  | .zero s => some (s == .negative, ⟨0, 0⟩)
  | .infinity _ | .notANumber => none

/-- Sign and shortest decimal of a scalar. -/
def ofScalar? (x : Scalar) : Option (Bool × Scaled) :=
  ofUnpacked? .binary32 x.toModel.unpack

/-- Sign and shortest decimal of a double. -/
def ofDouble? (x : Double) : Option (Bool × Scaled) :=
  ofUnpacked? .binary64 x.toModel.unpack

end Seahorse.Decimal
