import GrowthOrder.Decimal.Digits
import GrowthOrder.Decimal.Numeral

/-!
# GrowthOrder.Decimal.Fixed

Numbers with a given count of decimal places, and in scientific form with a given count of places
after the leading digit.  The exact value is rounded once; a half goes to the even neighbour.  A
negative number keeps its sign even where it is written as zero.
-/

namespace GrowthOrder.Decimal

/-- A magnitude with exactly `places` digits after the point. -/
def fixedMagnitude (places : Nat) (q : Rat) : String :=
  let ds := paddedDigits (places + 1) (nearest .even (q * (10 : Rat) ^ places))
  let whole := ds.take (ds.length - places)
  if places = 0 then String.ofList whole
  else String.ofList (whole ++ '.' :: ds.drop (ds.length - places))

/-- A number with exactly `places` digits after the point. -/
def fixed (places : Nat) : Numeral → String
  | .nan => "NaN"
  | .infinite negative => Numeral.sign negative ++ "inf"
  | .finite negative q => Numeral.sign negative ++ fixedMagnitude places q

/-- A magnitude as its leading digit, `places` more digits, and the exponent of the leading digit.
-/
def scientificMagnitude (places : Nat) (q : Rat) : String :=
  if q = 0 then fixedMagnitude places 0 ++ "e0"
  else
    let k := leadingExponent q
    let n := nearest .even (q / (10 : Rat) ^ (k - places))
    let (n, k) := if n < Nat.pow 10 (places + 1) then (n, k) else (n / 10, k + 1)
    fixedMagnitude places ((n : Rat) / (10 : Rat) ^ places) ++ "e" ++ toString k

/-- A number in scientific form with `places` digits after the point. -/
def scientific (places : Nat) : Numeral → String
  | .nan => "NaN"
  | .infinite negative => Numeral.sign negative ++ "inf"
  | .finite negative q => Numeral.sign negative ++ scientificMagnitude places q

end GrowthOrder.Decimal
