import GrowthOrder.Decimal.Fixed
import GrowthOrder.Root
import GrowthOrder.Text.Justify

/-!
# GrowthOrder.Search.Event

What a search does, step by step.  Every search returns its result together with the list of its
events, a `Recorded` value; a `Trace` is such a list on its own.
-/

namespace GrowthOrder

/-- How an iteration inside a bracket chose its next point. -/
inductive Step
  | interpolation
  | bisection
  deriving DecidableEq, Repr

/-- One step of a search. -/
inductive Event (α : Type)
  /-- A candidate for the upper end of a bracket, and the value there. -/
  | probe (x value : α)
  /-- The bracket that is searched from here on. -/
  | bracket (lower upper : α)
  /-- An iterate of Newton's method, and the value there. -/
  | newton (iteration : Nat) (x value : α)
  /-- What Newton's method found is not used. -/
  | rejected (reason : String)
  /-- An iterate inside the bracket, the value there, and how it was chosen. -/
  | brent (iteration : Nat) (x value : α) (step : Step)
  /-- A root next to a whole number is replaced by it. -/
  | snapped (before after : α)
  /-- The outcome. -/
  | finished (root : Root α)
  deriving DecidableEq, Repr

/-- A result with the events that led to it. -/
structure Recorded (α β : Type) where
  events : List (Event α)
  result : β

namespace Event

variable {α : Type}

/-- The point that an event evaluated. -/
def point? : Event α → Option (α × α)
  | probe x value => some (x, value)
  | newton _ x value => some (x, value)
  | brent _ x value _ => some (x, value)
  | _ => none

/-- Whether the event is an iterate. -/
def isIterate : Event α → Bool
  | newton _ _ _ => true
  | brent _ _ _ _ => true
  | _ => false

/-! ## In words -/

/-- A number with the given places, filled up to fourteen characters. -/
def column (places : Nat) (x : Float) : String :=
  Text.padRight 14 (Decimal.fixed places (.ofFloat x))

/-- A value with a few significant digits. -/
def brief (x : Float) : String :=
  Decimal.scientific 3 (.ofFloat x)

/-- The name of a step. -/
def stepName : Step → String
  | .interpolation => "interp"
  | .bisection => "bisect"

/-- A line about the event. -/
def describe : Event Float → String
  | probe x value => "probe     x = " ++ column 8 x ++ " g = " ++ brief value
  | bracket lower upper =>
    "bracket   [" ++ Decimal.text Decimal.plain lower ++ ", "
      ++ Decimal.text Decimal.plain upper ++ "]"
  | newton iteration x value =>
    "newton #" ++ Text.padRight 2 (toString iteration) ++ " x = " ++ column 10 x
      ++ " g = " ++ brief value
  | rejected reason => "newton rejected: " ++ reason
  | brent iteration x value step =>
    "brent  #" ++ Text.padRight 2 (toString iteration) ++ " x = " ++ column 10 x
      ++ " g = " ++ brief value ++ " (" ++ stepName step ++ ")"
  | snapped before after =>
    "snap      " ++ Decimal.text Decimal.plain before ++ " -> "
      ++ Decimal.text Decimal.plain after
  | finished root => "result    " ++ root.describe

end Event

/-! ## Traces -/

/-- The events of a search, in order. -/
abbrev Trace (α : Type) :=
  List (Event α)

namespace Trace

variable {α : Type}

/-- The last bracket. -/
def bracket? (trace : Trace α) : Option (α × α) :=
  trace.reverse.findSome? fun
    | .bracket lower upper => some (lower, upper)
    | _ => none

/-- The last outcome. -/
def outcome? (trace : Trace α) : Option (Root α) :=
  trace.reverse.findSome? fun
    | .finished root => some root
    | _ => none

/-- The number of iterates. -/
def iterations (trace : Trace α) : Nat :=
  trace.countP Event.isIterate

end Trace

end GrowthOrder
