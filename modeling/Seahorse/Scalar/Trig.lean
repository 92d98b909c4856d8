import Seahorse.Scalar

/-!
# Sine, cosine and the angle of a direction

Each function is the exact value rounded once to a scalar. The value is summed in fixed point with
`fractionBits` bits behind the point, which leaves more than a hundred bits beyond the precision of
a scalar: a finite scalar is a whole number of quanta, so it enters the sum exactly, and π is summed
to the same precision, so the reduction of the largest scalar still loses nothing that shows.

The results are held to their ranges, `[-1, 1]` and `[-π, π]`, by a last comparison. It never
changes a value that is rounded correctly.
-/

namespace Seahorse.Scalar

/-- The number of bits behind the point in the fixed-point sums. -/
def fractionBits : Nat := 320

/-- The rest of Euler's series for the arctangent, from the term with index `n` on: each term is the
one before times `(2n + 2) / (2n + 3)` times `u`. -/
def arctanTerms (u : Nat) : Nat → Nat → Nat → Nat
  | 0, _, _ => 0
  | count + 1, n, term =>
    term + arctanTerms u count (n + 1) (((term * u) >>> fractionBits) * (2 * n + 2) / (2 * n + 3))

/-- The arctangent of `y / x` in fixed point, for `y ≤ x`. With `u = y² / (x² + y²)` at most a half,
each term of the series is less than half of the one before. -/
def arctanSmall (y x : Nat) : Nat :=
  let s := x * x + y * y
  arctanTerms (((y * y) <<< fractionBits) / s) (fractionBits + 1) 0 (((x * y) <<< fractionBits) / s)

/-- The angle π/2 in fixed point, from `π/4 = arctan (1/2) + arctan (1/3)`. -/
def rightAngle : Nat :=
  2 * (arctanSmall 1 2 + arctanSmall 1 3)

/-- The angle in the first quadrant of the direction `(x, y)`, in fixed point. -/
def quadrantAngle (y x : Nat) : Nat :=
  if y ≤ x then arctanSmall y x else rightAngle - arctanSmall x y

/-- The alternating sum of the terms `term · square / ((n + 1) (n + 2)) …`. -/
def alternatingTerms (square : Nat) : Nat → Nat → Nat → Int
  | 0, _, _ => 0
  | count + 1, n, term =>
    term - alternatingTerms square count (n + 2)
      (((term * square) >>> fractionBits) / ((n + 1) * (n + 2)))

/-- The number of terms of the sine and cosine series that reach the last fraction bit, for angles
up to π/4. -/
def seriesLength : Nat := 40

/-- The sine of a fixed-point angle of at most π/4 in size. -/
def sinSmall (r : Int) : Int :=
  let size := r.natAbs
  let s := alternatingTerms ((size * size) >>> fractionBits) seriesLength 1 size
  if r < 0 then -s else s

/-- The cosine of a fixed-point angle of at most π/4 in size. -/
def cosSmall (r : Int) : Int :=
  let size := r.natAbs
  alternatingTerms ((size * size) >>> fractionBits) seriesLength 0 (1 <<< fractionBits)

/-- The sine of a fixed-point angle and of the angle a number of quarter turns further on. The angle
is reduced to the nearest multiple of π/2. -/
def sinTurned (angle quarters : Nat) : Int :=
  let turns := (2 * angle + rightAngle) / (2 * rightAngle)
  let r : Int := angle - turns * rightAngle
  match (turns + quarters) % 4 with
  | 0 => sinSmall r
  | 1 => cosSmall r
  | 2 => -sinSmall r
  | _ => -cosSmall r

/-- The scalar nearest to a fixed-point number; `negative` turns its sign around. -/
def ofFixed (negative : Bool) (v : Int) : Scalar :=
  ofDyadic (negative != decide (v < 0)) v.natAbs (-fractionBits)

/-- A number of quanta in fixed point. -/
def fixedOfQuanta (n : Nat) : Nat :=
  n <<< (fractionBits - quantumExponent)

/-- The sine of an angle in radians; a NaN if the angle is not finite. -/
def sin (x : Scalar) : Scalar :=
  match x.quanta? with
  | none => notANumber
  | some (negative, n) => clamp (-1) 1 (ofFixed negative (sinTurned (fixedOfQuanta n) 0))

/-- The cosine of an angle in radians; a NaN if the angle is not finite. -/
def cos (x : Scalar) : Scalar :=
  match x.quanta? with
  | none => notANumber
  | some (_, n) => clamp (-1) 1 (ofFixed false (sinTurned (fixedOfQuanta n) 1))

/-- The angle of the direction `(x, y)`, in `[-π, π]`; a NaN if a coordinate is not finite. A zero
`y` keeps its sign. -/
def angleOf (y x : Scalar) : Scalar :=
  match y.quanta?, x.quanta? with
  | some (yNegative, ny), some (xNegative, nx) =>
    let acute := quadrantAngle ny nx
    let a := if xNegative then 2 * rightAngle - acute else acute
    clamp (-pi) pi (ofFixed yNegative a)
  | _, _ => notANumber

end Seahorse.Scalar
