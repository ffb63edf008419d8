import GrowthOrder.Text.Ranges

/-!
# GrowthOrder.Text.Blank

The blanks: code points with the Unicode property White_Space.
-/

namespace GrowthOrder.Text

/-- The ranges of the property White_Space. -/
def blankRanges : List (Nat × Nat) :=
  [
    (0x9, 0xD), (0x20, 0x20), (0x85, 0x85), (0xA0, 0xA0), (0x1680, 0x1680), (0x2000, 0x200A),
    (0x2028, 0x2029), (0x202F, 0x202F), (0x205F, 0x205F), (0x3000, 0x3000)
  ]

/-- Whether `c` is a blank. -/
def isBlank (c : Char) : Bool :=
  inRanges blankRanges c

end GrowthOrder.Text
