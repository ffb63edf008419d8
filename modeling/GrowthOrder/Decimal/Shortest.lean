import GrowthOrder.Decimal.Digits
import GrowthOrder.Decimal.Numeral

/-!
# GrowthOrder.Decimal.Shortest

The decimal text of a binary64 number with the fewest digits that read back to it, and among those
the nearest to its exact value.

`shortest` tries one digit, two digits, and so on up to seventeen: on the grid of that many digits
the two neighbours of the exact value are candidates, the nearer one first, and the first candidate
that reads back wins.  `NumberStyle` says how the digits are then laid out; `plain`, `tagged` and
`interchange` are the three layouts in use.
-/

namespace GrowthOrder

/-- The unsigned decimal `digits * 10 ^ exponent`. -/
structure Decimal where
  digits : Nat
  exponent : Int
  deriving DecidableEq, Repr

namespace Decimal

/-- The nearest binary64 number to a decimal. -/
def read (d : Decimal) : Float :=
  Float.ofScientific d.digits (decide (d.exponent < 0)) d.exponent.natAbs

/-! ## The fewest digits -/

/-- Of the two neighbours of `q` on the grid of multiples of `10 ^ exponent`, the nearer one first,
the first that reads back to `x`. -/
def onGrid? (tie : Tie) (x : Float) (q : Rat) (exponent : Int) : Option Decimal :=
  let scaled := q / (10 : Rat) ^ exponent
  let near := nearest tie scaled
  let below := scaled.floor.toNat
  let far := if near = below then below + 1 else below
  [near, far].map (Decimal.mk · exponent) |>.find? fun d => d.read == x

/-- All digits of a finite number. -/
def exact (x : Float) : Decimal :=
  let q := Binary64.exponent x
  if 0 ≤ q then ⟨Binary64.mantissa x * Nat.pow 2 q.toNat, 0⟩
  else ⟨Binary64.mantissa x * Nat.pow 5 q.natAbs, q⟩

/-- The decimal with the fewest digits that reads back to the absolute value of a finite number. -/
def shortest (tie : Tie) (x : Float) : Decimal :=
  let q := Binary64.magnitude x
  if q = 0 then ⟨0, 0⟩
  else
    let k := leadingExponent q
    ((List.range 17).findSome? fun (n : Nat) => onGrid? tie x.abs q (k - n)).getD (exact x)

/-! ## Layout -/

/-- How the digits of a number are written. -/
structure NumberStyle where
  /-- Where an exact tie between two shortest decimals goes. -/
  tie : Tie
  /-- The leading exponents that are written without an exponent; all of them if absent. -/
  positional : Option (Int × Int)
  /-- Whether a whole number written without an exponent ends in `.0`. -/
  pointZero : Bool
  /-- The sign in front of an exponent that is not negative. -/
  exponentPlus : String
  /-- The text for a NaN. -/
  nan : String
  /-- The text for the two infinities: negative and positive. -/
  infinite : Bool → String

/-- Digits and point, no exponent, and no point in a whole number; ties go up. -/
def plain : NumberStyle where
  tie := .up
  positional := none
  pointZero := false
  exponentPlus := ""
  nan := "NaN"
  infinite negative := Numeral.sign negative ++ "inf"

/-- Always recognisable as a fractional number: `2.0`; an exponent below `1e-4` and from `1e16` on;
ties go up. -/
def tagged : NumberStyle where
  tie := .up
  positional := some (-4, 15)
  pointZero := true
  exponentPlus := ""
  nan := "NaN"
  infinite negative := Numeral.sign negative ++ "inf"

/-- Numbers in JSON: `2.0`; an exponent, with its sign, below `1e-5` and from `1e16` on; ties go to
the even neighbour; what is not finite is `null`. -/
def interchange : NumberStyle where
  tie := .even
  positional := some (-5, 15)
  pointZero := true
  exponentPlus := "+"
  nan := "null"
  infinite _ := "null"

/-- The digits without trailing zeros; a zero keeps its only digit. -/
def significant (ds : List Char) : List Char :=
  match (ds.reverse.dropWhile (· == '0')).reverse with
  | [] => ['0']
  | c :: cs => c :: cs

/-- Digits with the point after the first `point` of them, filled up with zeros. -/
def positionalText (pointZero : Bool) (ds : List Char) (point : Int) : List Char :=
  if point ≤ 0 then '0' :: '.' :: List.replicate point.natAbs '0' ++ ds
  else
    let p := point.toNat
    if p < ds.length then ds.take p ++ '.' :: ds.drop p
    else ds ++ List.replicate (p - ds.length) '0' ++ (if pointZero then ['.', '0'] else [])

/-- The leading digit, the others after a point, and the exponent of the leading digit. -/
def exponentText (plus : String) (ds : List Char) (leading : Int) : List Char :=
  let fractional := if ds.length ≤ 1 then [] else '.' :: ds.drop 1
  let sign := if leading < 0 then "-" else plus
  ds.take 1 ++ fractional ++ 'e' :: sign.toList ++ digitsOf leading.natAbs

/-- Whether a number with this leading exponent is written without an exponent. -/
def NumberStyle.isPositional (style : NumberStyle) (leading : Int) : Bool :=
  match style.positional with
  | none => true
  | some (low, high) => decide (low ≤ leading) && decide (leading ≤ high)

/-- The text of a decimal. -/
def layout (style : NumberStyle) (d : Decimal) : List Char :=
  let all := digitsOf d.digits
  let point : Int := all.length + d.exponent
  let ds := significant all
  if style.isPositional (point - 1) then positionalText style.pointZero ds point
  else exponentText style.exponentPlus ds (point - 1)

/-- The shortest text of a number that reads back to it, in the given style. -/
def text (style : NumberStyle) (x : Float) : String :=
  if x.isNaN then style.nan
  else if x.isFinite then
    Numeral.sign (Binary64.isNegative x) ++ String.ofList (layout style (shortest style.tie x))
  else style.infinite (Binary64.isNegative x)

end Decimal

end GrowthOrder
