import GrowthOrder.Decimal.Shortest

/-!
# GrowthOrder.Search.Fault

Why an iterative root finder gives up.
-/

namespace GrowthOrder

/-- Why a root finder gives up. -/
inductive SearchFault (α : Type)
  /-- The function has the same sign at both ends of the interval. -/
  | sameSign (lower upper lowerValue upperValue : α)
  /-- The iterations are used up; the last point is given. -/
  | exhausted (iterations : Nat) (x : α)
  /-- The slope vanishes. -/
  | flat (x : α)
  /-- The next point would not be a number. -/
  | escaped (x : α)
  deriving DecidableEq, Repr

/-- The message for a fault. -/
def SearchFault.message : SearchFault Float → String
  | sameSign lower upper lowerValue upperValue =>
    let equation (x value : Float) :=
      "f(" ++ Decimal.text Decimal.plain x ++ ") = " ++ Decimal.text Decimal.plain value
    "f(a) and f(b) must have different signs: " ++ equation lower lowerValue ++ ", "
      ++ equation upper upperValue
  | exhausted iterations x =>
    "failed to converge after " ++ toString iterations ++ " iterations, last x = "
      ++ Decimal.text Decimal.plain x
  | flat x => "derivative vanished at x = " ++ Decimal.text Decimal.plain x
  | escaped x => "step non-finite at x = " ++ Decimal.text Decimal.plain x

end GrowthOrder
