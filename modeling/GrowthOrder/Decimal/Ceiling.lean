import GrowthOrder.Decimal.Fixed

/-!
# GrowthOrder.Decimal.Ceiling

Numbers as they are shown: few decimal places, rounded up, no needless zeros.  A number within a few
units in the last place of a multiple counts as that multiple, so that `1.1` is not shown as
`1.10001`.

The unit is a power of ten whose exponent has 32 bits, so that it is the count of decimals only
below `2 ^ 31`.
-/

namespace GrowthOrder.Decimal

variable {α : Type}

/-- The whole number of units that a scaled number is shown as: the nearest one if only noise is
between, the next above otherwise. -/
def units [Scalar α] (scaled : α) : α :=
  if Scalar.abs (scaled - Scalar.round scaled)
      ≤ Scalar.abs scaled * 4.0 * Scalar.epsilon then
    Scalar.round scaled
  else Scalar.ceil scaled

/-- A fixed-point text without the zeros that end its fraction, and without a point that ends it. -/
def trimFraction (text : List Char) : List Char :=
  if text.contains '.' then
    let trimmed := text.reverse.dropWhile (· == '0')
    ((if trimmed.head? = some '.' then trimmed.drop 1 else trimmed)).reverse
  else text

/-- A number with at most `places` decimals, rounded up.  The exponent of the unit has 32 bits. -/
def ceiling [Written α] (places : Nat) (x : α) : String :=
  if Scalar.isNaN x then "NaN"
  else if !Scalar.isFinite x then if 0.0 < x then "inf" else "-inf"
  else
    let unit : α := Scalar.zpower 10.0 places.toInt32
    let rounded := units (x * unit) / unit + 0.0
    String.ofList (trimFraction (fixed places (Written.numeral rounded)).toList)

/-- The same where not more than `limit` decimals can be written; for a finite number more are
refused. -/
def ceiling? [Written α] (limit places : Nat) (x : α) : Option String :=
  if Scalar.isFinite x && decide (limit < places) then none else some (ceiling places x)

/-- The most decimals that can be written; sixteen bits count them. -/
def mostPlaces : Nat :=
  65535

/-- How many decimals a growth base is shown with. -/
def shownPlaces : Nat :=
  5

end GrowthOrder.Decimal
