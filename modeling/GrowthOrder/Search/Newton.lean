import GrowthOrder.Search.Event
import GrowthOrder.Search.Fault

/-!
# GrowthOrder.Search.Newton

Roots by Newton's method, from a point that is hoped to be near one.  The method stops where the
value is zero, and where two points in a row are within the tolerance; it gives up where the slope
is zero, where the next point is not finite, and when its iterations are used up.
-/

namespace GrowthOrder.Newton

/-- Tolerance and number of iterations. -/
structure Options (α : Type) where
  tolerance : α
  iterations : Nat

/-- The options of every search from a remembered root. -/
def Options.standard {α : Type} [Scalar α] : Options α where
  tolerance := 1.48e-8
  iterations := 20

variable {α : Type} [Scalar α]

/-- At most `remaining` iterations from `x`, the first of them number `iteration`.  `f` gives the
value and the slope. -/
def iterate (f : α → α × α) (o : Options α) :
    Nat → Nat → α → Recorded α (Except (SearchFault α) α)
  | 0, _, x => ⟨[], .error (.exhausted o.iterations x)⟩
  | remaining + 1, iteration, x =>
    let value := (f x).1
    let slope := (f x).2
    let next := x - value / slope
    let event := Event.newton iteration x value
    if value == (0.0 : α) then ⟨[event], .ok x⟩
    else if slope == (0.0 : α) then ⟨[event], .error (.flat x)⟩
    else if !Scalar.isFinite next then ⟨[event], .error (.escaped x)⟩
    else if Scalar.abs (next - x) < o.tolerance then ⟨[event], .ok next⟩
    else
      let rest := iterate f o remaining (iteration + 1) next
      ⟨event :: rest.events, rest.result⟩

/-- A root of `f`, which gives value and slope, from `x` on. -/
def search (f : α → α × α) (x : α) (o : Options α) : Recorded α (Except (SearchFault α) α) :=
  iterate f o o.iterations 1 x

end GrowthOrder.Newton
