import GrowthOrder.Recurrence

/-!
# GrowthOrder.Characteristic

The characteristic function of a recurrence in one variable.  A call with coefficient `c` that looks
back by `d` contributes the power `c * x ^ (-d)`:

```text
g(x)  =  Σ c * x ^ (-d) - 1
g'(x) = -Σ c * d * x ^ (-d) / x
```

Powers are taken as `exp (-d * ln x)`, so that a large `d` gives zero.  Where `x` is not positive,
or `g` or its slope is not finite, both values are infinite, which tells a search to go elsewhere.
-/

namespace GrowthOrder

/-- The power `coefficient * x ^ (-delta)`. -/
structure Power (α : Type) where
  coefficient : α
  delta : α
  deriving BEq

/-- A characteristic function, as its powers in order. -/
structure Characteristic (α : Type) where
  powers : List (Power α)
  deriving BEq

namespace Characteristic

variable {α : Type} [Scalar α]

/-! ## Construction -/

/-- The power that a call contributes: it looks back by what its first shift takes away. -/
def powerOf? (c : Call α) : Option (Power α) :=
  c.shifts.head?.map fun s => ⟨c.coefficient, -s⟩

/-- The characteristic function of a recurrence; its constants do not matter. -/
def ofRecurrence (r : Recurrence α) : Characteristic α :=
  ⟨r.calls.filterMap powerOf?⟩

/-- The characteristic function with all coefficients 1. -/
def unit (deltas : List α) : Characteristic α :=
  ⟨deltas.map fun d => ⟨1.0, d⟩⟩

/-! ## Parts -/

/-- The coefficients, in order. -/
def coefficients (g : Characteristic α) : List α :=
  g.powers.map Power.coefficient

/-- The deltas, in order. -/
def deltas (g : Characteristic α) : List α :=
  g.powers.map Power.delta

/-- Whether there is no power at all. -/
def isEmpty (g : Characteristic α) : Bool :=
  g.powers.isEmpty

/-- The number of powers. -/
def size (g : Characteristic α) : Nat :=
  g.powers.length

/-- The least delta. -/
def minDelta? (g : Characteristic α) : Option α :=
  match g.deltas with
  | [] => none
  | d :: ds => some (ds.foldl Scalar.min d)

/-! ## Values -/

/-- The value at 1, where every power is 1: the sum of the coefficients less one. -/
def atOne (g : Characteristic α) : α :=
  g.coefficients.foldl (· + ·) 0.0 - 1.0

/-- The power at the number whose logarithm is given. -/
def Power.atLog (p : Power α) (logarithm : α) : α :=
  p.coefficient * Scalar.exp (-p.delta * logarithm)

/-- The sum of the powers at the number whose logarithm is given. -/
def sumAtLog (g : Characteristic α) (logarithm : α) : α :=
  g.powers.foldl (fun sum p => sum + Power.atLog p logarithm) 0.0

/-- The sum of the powers, each times its delta. -/
def weightedAtLog (g : Characteristic α) (logarithm : α) : α :=
  g.powers.foldl (fun sum p => sum + p.delta * Power.atLog p logarithm) 0.0

/-- The value and the slope at `x`. -/
def evaluate (g : Characteristic α) (x : α) : α × α :=
  if decide (x ≤ 0.0) || Scalar.isNaN x then (Scalar.infinity, Scalar.infinity)
  else
    let value := g.sumAtLog (Scalar.ln x) - 1.0
    let slope := -g.weightedAtLog (Scalar.ln x) / x
    if Scalar.isFinite value && Scalar.isFinite slope then (value, slope)
    else (Scalar.infinity, Scalar.infinity)

/-- The value at `x`. -/
def value (g : Characteristic α) (x : α) : α :=
  (g.evaluate x).1

end Characteristic

end GrowthOrder
