import Seahorse.Decimal.Basic
import Seahorse.Scalar

/-!
# Text with a fixed number of places

The exact value is rounded to the given number of decimal places, a tie going to the even digit. The
sign of a negative number stays when it rounds to zero, and there is never an exponent.
-/

namespace Seahorse.Decimal

/-- The text of `n` units of the last of `places` decimal places. -/
def placesText (places n : Nat) : List Char :=
  text (digits (n / tenPow places)) ++ '.' :: text (digitsOfWidth places n)

/-- The text of a scalar with the given number of places, at least one. -/
def fixedText (places : Nat) (x : Scalar) : String :=
  match x.toModel.unpack with
  | .notANumber => "NaN"
  | .infinity .positive => "inf"
  | .infinity .negative => "-inf"
  | .zero s => ofMagnitude s 0 1
  | .finite s m e _ => ofMagnitude s (m <<< e.toNat) (1 <<< (-e).toNat)
where
  /-- The text of `± num / den`. -/
  ofMagnitude (s : Float.Model.UnpackedFloat.Sign) (num den : Nat) : String :=
    let body := placesText places (roundDiv (num * tenPow places) den)
    String.ofList (if s == .negative then '-' :: body else body)

end Seahorse.Decimal
