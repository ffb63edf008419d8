import GrowthOrder.Decimal.Shortest

/-!
# GrowthOrder.Root

What a search for a dominant root ends with: a root of at least 1, no such root, or unbounded
growth.

A root can be exchanged as a bare number.  Unbounded growth is infinity and no root is
`infeasibleMark`, so that a caller who wants little growth can compare the numbers.
-/

namespace GrowthOrder

/-- The outcome of a search for a dominant root. -/
inductive Root (α : Type)
  /-- A dominant root. -/
  | finite (root : α)
  /-- No root of at least 1, or none found. -/
  | infeasible
  /-- Nothing to solve; growth is unbounded. -/
  | divergent
  deriving DecidableEq, BEq, Repr

namespace Root

variable {α : Type}

/-- The root, if there is one. -/
def value? : Root α → Option α
  | finite r => some r
  | infeasible => none
  | divergent => none

/-- Whether there is a root. -/
def isFinite : Root α → Bool
  | finite _ => true
  | _ => false

/-- Whether there is no root. -/
def isInfeasible : Root α → Bool
  | infeasible => true
  | _ => false

/-- Whether growth is unbounded. -/
def isDivergent : Root α → Bool
  | divergent => true
  | _ => false

/-! ## As a bare number -/

/-- The number that stands for no root. -/
def infeasibleMark [Scalar α] : α :=
  1e6

/-- The outcome as a bare number. -/
def toNumber [Scalar α] : Root α → α
  | finite r => r
  | infeasible => infeasibleMark
  | divergent => Scalar.infinity

/-- The outcome that a bare number stands for; from `infeasibleMark` on, and for no number at all,
that is no root. -/
def ofNumber [Scalar α] (x : α) : Root α :=
  if x == Scalar.infinity then divergent
  else if Scalar.isNaN x || decide (infeasibleMark ≤ x) then infeasible
  else finite x

/-- The outcome in words. -/
def describe : Root Float → String
  | finite r => Decimal.text Decimal.plain r
  | infeasible => "infeasible"
  | divergent => "divergent"

end Root

end GrowthOrder
