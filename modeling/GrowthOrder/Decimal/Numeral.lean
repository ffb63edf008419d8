import GrowthOrder.Scalar

/-!
# GrowthOrder.Decimal.Numeral

What a number is to somebody who writes it down: not a number, an infinity, or a sign and an exact
magnitude.  Zero has a sign too.
-/

namespace GrowthOrder

/-- A number to be written down. -/
inductive Numeral
  | nan
  | infinite (negative : Bool)
  | finite (negative : Bool) (magnitude : Rat)

namespace Numeral

/-- The numeral of a binary64 number. -/
def ofFloat (x : Float) : Numeral :=
  if x.isNaN then .nan
  else if x.isFinite then .finite (Binary64.isNegative x) (Binary64.magnitude x)
  else .infinite (Binary64.isNegative x)

/-- The minus sign, where there is one. -/
def sign (negative : Bool) : String :=
  if negative then "-" else ""

end Numeral

/-- Scalars that can be written down exactly. -/
class Written (α : Type) extends Scalar α where
  numeral : α → Numeral

instance : Written Float where
  numeral := Numeral.ofFloat

end GrowthOrder
