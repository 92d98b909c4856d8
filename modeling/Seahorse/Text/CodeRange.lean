/-!
# Ranges of code points

A class of characters is given by the ranges of code points that make it up.
-/

namespace Seahorse.Text

/-- Whether a code point lies in one of the ranges, each given by its first and its last member. -/
def inRanges (ranges : List (Nat × Nat)) (c : Char) : Bool :=
  ranges.any fun (first, last) => first ≤ c.toNat && c.toNat ≤ last

end Seahorse.Text
