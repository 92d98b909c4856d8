/-!
# Scalars

Positions, headings, distances and times are single-precision numbers with one rounding per
operation. Addition, multiplication, comparison and square root are those of `Float32`; this module
adds the conversions that round exactly once, and the order operations that pass over a NaN.

A conversion unpacks the number into sign, mantissa and binary exponent and rounds that to the
nearest representable value, a tie going to the even mantissa, so every conversion computes inside
the logic.
-/

namespace Seahorse

open Float.Model (UnpackedFloat)

/-- A single-precision number. -/
abbrev Scalar := Float32

/-- A double-precision number, which a numeral is read through. -/
abbrev Double := Float

namespace Scalar

/-- The scalar nearest to π. -/
def pi : Scalar := 3.1415927

/-- The scalar nearest to π/2. -/
def halfPi : Scalar := 1.5707964

/-- The distance from 1 to the next scalar, `2⁻²³`. -/
def epsilon : Scalar := 1.1920929e-7

/-- The scalar that stands for no number. -/
def notANumber : Scalar := ⟨Float32.Model.pack .notANumber⟩

/-- The sign of a number, as the unpacked form has it. -/
def signOf (negative : Bool) : UnpackedFloat.Sign :=
  if negative then .negative else .positive

/-- The scalar nearest to `± m · 2ᵉ`; beyond the largest scalar that is an infinity. -/
def ofDyadic (negative : Bool) (m : Nat) (e : Int) : Scalar :=
  ⟨Float32.Model.pack (.round .binary32 (signOf negative) m e)⟩

/-- The scalar nearest to a natural number. -/
def ofNat (n : Nat) : Scalar :=
  ofDyadic false n 0

/-- The scalar nearest to an integer. -/
def ofInt (i : Int) : Scalar :=
  ofDyadic (i < 0) i.natAbs 0

/-- The scalar nearest to a double. -/
def ofDouble (d : Double) : Scalar :=
  match d.toModel.unpack with
  | .finite s m e _ => ⟨Float32.Model.pack (.round .binary32 s m e)⟩
  | u => ⟨Float32.Model.pack u⟩

/-- The double equal to a scalar. -/
def toDouble (x : Scalar) : Double :=
  match x.toModel.unpack with
  | .finite s m e _ => ⟨Float.Model.pack (.round .binary64 s m e)⟩
  | u => ⟨Float.Model.pack u⟩

/-- The larger of two scalars, and the other one if one of them is a NaN. -/
protected def max (a b : Scalar) : Scalar :=
  if b.isNaN ∨ b < a then a else b

/-- The smaller of two scalars, and the other one if one of them is a NaN. -/
protected def min (a b : Scalar) : Scalar :=
  if b.isNaN ∨ a < b then a else b

/-- The scalar between `lo` and `hi` nearest to `x`; a NaN goes to `hi`. -/
def clamp (lo hi x : Scalar) : Scalar :=
  if x ≤ hi then if lo ≤ x then x else lo else hi

/-- The exponent of the smallest positive scalar, `2⁻¹⁴⁹`, of which every finite scalar is a
multiple. -/
def quantumExponent : Nat := 149

/-- A finite scalar as a sign and a number of quanta. The sign of zero is kept. -/
def quanta? (x : Scalar) : Option (Bool × Nat) :=
  match x.toModel.unpack with
  | .finite s m e _ => some (s == .negative, m <<< (e + quantumExponent).toNat)
  | .zero s => some (s == .negative, 0)
  | .infinity _ | .notANumber => none

end Scalar

end Seahorse
