import GrowthOrder.Text.Ranges

/-!
# GrowthOrder.Text.Columns

How many columns of a terminal a character takes: none for a control character, two for the wide
characters of East Asia, one for all others.
-/

namespace GrowthOrder.Text

/-- The ranges of wide characters. -/
def wideRanges : List (Nat × Nat) :=
  [
    (0x1100, 0x115F), (0x2E80, 0x303E), (0x3041, 0x3247), (0x3250, 0x4DBF), (0x4E00, 0xA4CF),
    (0xA960, 0xA97F), (0xAC00, 0xD7A3), (0xF900, 0xFAFF), (0xFE30, 0xFE6F), (0xFF01, 0xFF60),
    (0xFFE0, 0xFFE6), (0x16FE0, 0x18DFF), (0x1AFF0, 0x1B2FF), (0x20000, 0x3FFFD)
  ]

/-- Whether `c` is a control character. -/
def isControl (c : Char) : Bool :=
  decide (c.toNat < 0x20) || (decide (0x7F ≤ c.toNat) && decide (c.toNat < 0xA0))

/-- The number of columns that `c` takes. -/
def columns (c : Char) : Nat :=
  if isControl c then 0 else if inRanges wideRanges c then 2 else 1

end GrowthOrder.Text
