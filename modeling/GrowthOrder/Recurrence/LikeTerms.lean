import GrowthOrder.Recurrence

/-!
# GrowthOrder.Recurrence.LikeTerms

Collecting like terms.  The constants of a sum become one constant, and calls with the same shifts
become one call whose coefficient is the sum of theirs.  What cancels out, up to `cancellation`, is
dropped.

The constant comes first, then the calls, each where its shifts first occur.  Sums run from left to
right.
-/

namespace GrowthOrder

variable {α : Type} [Scalar α]

/-- The magnitude up to which a sum of coefficients counts as zero. -/
def cancellation : α :=
  1e-12

namespace Call

/-- Whether two shifts are the same: equal, or both no number at all. -/
def sameShift (x y : α) : Bool :=
  x == y || (Scalar.isNaN x && Scalar.isNaN y)

/-- Whether two calls have the same shifts. -/
def alike (c d : Call α) : Bool :=
  c.shifts.isEqv d.shifts sameShift

/-- Add a call to the first of some calls that it is like, or else at their end. -/
def addTo (c : Call α) : List (Call α) → List (Call α)
  | [] => [c]
  | d :: ds =>
    if alike d c then { d with coefficient := d.coefficient + c.coefficient } :: ds
    else d :: addTo c ds

/-- One call for all that are alike, in the order of first occurrence. -/
def merge (cs : List (Call α)) : List (Call α) :=
  cs.foldl (fun ds c => c.addTo ds) []

end Call

namespace Term

/-- Whether a coefficient is more than what cancellation leaves behind. -/
def counts (coefficient : α) : Bool :=
  decide ((cancellation : α) < Scalar.abs coefficient)

/-- The sum of the constants among some summands. -/
def constantSum (ts : List (Term α)) : α :=
  (ts.filterMap constant?).foldl (· + ·) 0.0

/-- The same sum with like terms collected. -/
def collect (ts : List (Term α)) : List (Term α) :=
  (if counts (constantSum ts) then [constant (constantSum ts)] else [])
    ++ ((Call.merge (calls ts)).filter fun c => counts c.coefficient).map call

end Term

end GrowthOrder
