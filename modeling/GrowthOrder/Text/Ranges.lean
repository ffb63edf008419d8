/-!
# GrowthOrder.Text.Ranges

Sets of code points, given as ascending lists of inclusive ranges.
-/

namespace GrowthOrder.Text

/-- Whether the code point of `c` lies in one of the ranges, ends included. -/
def inRanges (ranges : List (Nat × Nat)) (c : Char) : Bool :=
  ranges.any fun r => decide (r.1 ≤ c.toNat) && decide (c.toNat ≤ r.2)

end GrowthOrder.Text
