/-!
# GrowthOrder.Decimal.Digits

Decimal digits of natural numbers and positive rationals: how many there are, where the leading one
stands, and how a rational is rounded to a whole number of units.
-/

namespace GrowthOrder.Decimal

/-- The decimal digits of a natural number, leading digit first. -/
def digitsOf (n : Nat) : List Char :=
  Nat.toDigits 10 n

/-- The digits of `n`, with zeros in front up to the given length. -/
def paddedDigits (length n : Nat) : List Char :=
  List.replicate (length - (digitsOf n).length) '0' ++ digitsOf n

/-- The exponent of the leading digit of a positive rational: the greatest `k` with
`10 ^ k ≤ q`. -/
def leadingExponent (q : Rat) : Int :=
  if 1 ≤ q then ((digitsOf q.floor.toNat).length : Int) - 1
  else -((digitsOf ((1 / q).ceil.toNat - 1)).length : Int)

/-- Where a value halfway between two whole numbers goes. -/
inductive Tie
  | even
  | up
  deriving DecidableEq, Repr

/-- The whole number nearest to a non-negative rational. -/
def nearest (tie : Tie) (q : Rat) : Nat :=
  let below := q.floor.toNat
  let rest := q - (below : Rat)
  if rest < 1 / 2 then below
  else if 1 / 2 < rest then below + 1
  else match tie with
    | .even => below + below % 2
    | .up => below + 1

end GrowthOrder.Decimal
