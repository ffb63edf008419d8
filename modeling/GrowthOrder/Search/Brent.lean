import GrowthOrder.Search.Event
import GrowthOrder.Search.Fault

/-!
# GrowthOrder.Search.Brent

Roots inside an interval at whose ends a function has opposite signs, by Brent's method: the secant
or an inverse quadratic where they promise a good step, bisection otherwise.

Three points are kept.  `current` is the best estimate, `previous` the one before it, and `blocking`
has the opposite sign, so that a root lies between `current` and `blocking`.  An iteration

1. renews `blocking` when the last step crossed the root (`rebracket`),
2. takes the better of `current` and `blocking` as the estimate (`orient`),
3. stops if the value is zero or the interval is short (`isDone`), and
4. moves by the chosen step, but at least by the tolerance (`advance`).
-/

namespace GrowthOrder.Brent

/-- Tolerances and the number of iterations. -/
structure Options (α : Type) where
  /-- Tolerance for the root. -/
  absolute : α
  /-- Tolerance relative to the root. -/
  relative : α
  iterations : Nat

/-- The tolerances of every search for a growth base. -/
def Options.standard {α : Type} [Scalar α] : Options α where
  absolute := 2e-12
  relative := 4.0 * Scalar.epsilon
  iterations := 100

/-- A point and the value there. -/
structure Sample (α : Type) where
  x : α
  value : α
  deriving Repr

/-- The three points, and the last two steps. -/
structure State (α : Type) where
  previous : Sample α
  current : Sample α
  blocking : Sample α
  /-- The step before the last. -/
  earlier : α
  /-- The last step. -/
  latest : α
  deriving Repr

variable {α : Type} [Scalar α]

/-- The function at a point. -/
def sample (f : α → α) (x : α) : Sample α :=
  ⟨x, f x⟩

/-- Whether the values at two points differ in sign; a zero has a sign too. -/
def opposite (p q : Sample α) : Bool :=
  Scalar.isNegative p.value != Scalar.isNegative q.value

/-- Whether the value at a point is zero. -/
def Sample.isZero (p : Sample α) : Bool :=
  p.value == (0.0 : α)

namespace State

/-! ## Parts of an iteration -/

/-- Take `previous` as the blocking point if the last step crossed the root. -/
def rebracket (s : State α) : State α :=
  if !s.previous.isZero && !s.current.isZero && opposite s.previous s.current then
    let width := s.current.x - s.previous.x
    { s with blocking := s.previous, earlier := width, latest := width }
  else s

/-- Take the better of `current` and `blocking` as the estimate. -/
def orient (s : State α) : State α :=
  if Scalar.abs s.blocking.value < Scalar.abs s.current.value then
    { s with previous := s.current, current := s.blocking, blocking := s.current }
  else s

/-- How near to the root the estimate has to be. -/
def tolerance (o : Options α) (s : State α) : α :=
  (o.absolute + o.relative * Scalar.abs s.current.x) / 2.0

/-- The step to the middle of the interval. -/
def bisection (s : State α) : α :=
  (s.blocking.x - s.current.x) / 2.0

/-- Whether the estimate is a root, or near enough to one. -/
def isDone (o : Options α) (s : State α) : Bool :=
  s.current.isZero || decide (Scalar.abs s.bisection < s.tolerance o)

/-- The step along the secant through `previous` and `current`. -/
def secant (s : State α) : α :=
  -s.current.value * (s.current.x - s.previous.x) / (s.current.value - s.previous.value)

/-- The step along the inverse quadratic through all three points. -/
def inverseQuadratic (s : State α) : α :=
  let slopePrevious := (s.previous.value - s.current.value) / (s.previous.x - s.current.x)
  let slopeBlocking := (s.blocking.value - s.current.value) / (s.blocking.x - s.current.x)
  let curvature := slopeBlocking * slopePrevious * (s.blocking.value - s.previous.value)
  let slope := s.blocking.value * slopeBlocking - s.previous.value * slopePrevious
  (-s.current.value) * slope / curvature

/-- The step that interpolation suggests. -/
def interpolation (s : State α) : α :=
  if s.previous.x == s.blocking.x then s.secant else s.inverseQuadratic

/-- Whether interpolation is tried: the last step but one was long enough and the value shrank. -/
def mayInterpolate (o : Options α) (s : State α) : Bool :=
  decide (s.tolerance o < Scalar.abs s.earlier)
    && decide (Scalar.abs s.current.value < Scalar.abs s.previous.value)

/-- Whether the interpolated step is short: less than half the step before the last, and well inside
the interval. -/
def isShort (o : Options α) (s : State α) : Bool :=
  decide (2.0 * Scalar.abs s.interpolation
    < Scalar.min (Scalar.abs s.earlier) (3.0 * Scalar.abs s.bisection - s.tolerance o))

/-- The kind of the next step. -/
def step (o : Options α) (s : State α) : Step :=
  if s.mayInterpolate o && s.isShort o then .interpolation else .bisection

/-- The last two steps once the next step is chosen. -/
def choose (o : Options α) (s : State α) : State α :=
  match s.step o with
  | .interpolation => { s with earlier := s.latest, latest := s.interpolation }
  | .bisection => { s with earlier := s.bisection, latest := s.bisection }

/-- The next point: the chosen step, or the tolerance where the step is shorter. -/
def next (o : Options α) (s : State α) : α :=
  if s.tolerance o < Scalar.abs (s.choose o).latest then s.current.x + (s.choose o).latest
  else s.current.x + (if 0.0 < s.bisection then s.tolerance o else -s.tolerance o)

/-- Move to the next point. -/
def advance (f : α → α) (o : Options α) (s : State α) : State α :=
  { s.choose o with previous := s.current, current := sample f (s.next o) }

end State

/-! ## The search -/

/-- At most `remaining` iterations, the first of them number `iteration`. -/
def iterate (f : α → α) (o : Options α) :
    Nat → Nat → State α → Recorded α (Except (SearchFault α) α)
  | 0, _, s => ⟨[], .error (.exhausted o.iterations s.current.x)⟩
  | remaining + 1, iteration, s =>
    let s := s.rebracket.orient
    if s.isDone o then ⟨[], .ok s.current.x⟩
    else
      let t := s.advance f o
      let rest := iterate f o remaining (iteration + 1) t
      ⟨.brent iteration t.current.x t.current.value (s.step o) :: rest.events, rest.result⟩

/-- The state before the first iteration. -/
def start (f : α → α) (a b : α) : State α where
  previous := sample f a
  current := sample f b
  blocking := ⟨0.0, 0.0⟩
  earlier := 0.0
  latest := 0.0

/-- A root of `f` between `a` and `b`, where the values of `f` differ in sign. -/
def search (f : α → α) (a b : α) (o : Options α) : Recorded α (Except (SearchFault α) α) :=
  let s := start f a b
  if s.previous.isZero then ⟨[], .ok a⟩
  else if s.current.isZero then ⟨[], .ok b⟩
  else if !opposite s.previous s.current then
    ⟨[], .error (.sameSign a b s.previous.value s.current.value)⟩
  else iterate f o o.iterations 1 s

end GrowthOrder.Brent
