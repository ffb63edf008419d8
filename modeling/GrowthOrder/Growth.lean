import GrowthOrder.Decimal.Ceiling
import GrowthOrder.Search.Dominant

/-!
# GrowthOrder.Growth

The growth order of a recurrence, such as `O(1.61804^n)`.  The base is rounded up, so that growth is
never understated.
-/

namespace GrowthOrder

/-- The growth order that a root means for a recurrence in one variable. -/
def Root.growthOrder (name : String) : Root Float → String
  | divergent => "O(∞)"
  | infeasible => "infeasible"
  | finite r =>
    if !r.isNaN && !r.isFinite then "O(∞)"
    else if r == 1.0 then "O(1)"
    else "O(" ++ Decimal.ceiling Decimal.shownPlaces r ++ "^" ++ name ++ ")"

/-- The growth order that a root means for a recurrence. -/
def Recurrence.growthOrder (r : Recurrence Float) (root : Root Float) :
    Except UnsupportedInput String :=
  match r.parameters with
  | [name] => .ok (root.growthOrder name)
  | names => .error ⟨names.length⟩

end GrowthOrder
