/-!
# Ranges of code points

A property of characters is given by the ranges of the code points that have it.

## Main definitions

* `inRanges`: whether a code point lies in one of the ranges
-/

namespace Michelson.Text

/-- Whether a code point lies in one of the ranges, ends included. -/
def inRanges (ranges : List (Nat × Nat)) (code : Nat) : Bool :=
  ranges.any fun (low, high) => low ≤ code && code ≤ high

end Michelson.Text
