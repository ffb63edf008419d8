import GrowthOrder.Characteristic
import GrowthOrder.Decimal.Ceiling
import GrowthOrder.Explorer.Canvas
import GrowthOrder.Search.Event

/-!
# GrowthOrder.Explorer.Curve

The pane with the characteristic function.  It shows the bracket of the search, or a part of it:

```text
width of the window  =  width of the bracket / 2 ^ zoom
```

The window is centred on the point in focus, as far as it can be without leaving the bracket, and on
the middle of the bracket where no point is in focus.  The exponent has 32 bits, so that it is the
zoom only below `2 ^ 31`; a negative one asks for a window that is wider than the bracket, and that
is refused.  The labels of both axes are rounded up.
-/

namespace GrowthOrder.Explorer

/-! ## The window -/

/-- An interval of an axis. -/
structure Window (α : Type) where
  lower : α
  upper : α
  deriving DecidableEq, Repr

namespace Window

variable {α : Type} [Scalar α]

/-- The window that is shown when a search has found no bracket. -/
def standard : Window α :=
  ⟨1.0, 2.0⟩

/-- The middle. -/
def middle (w : Window α) : α :=
  (w.lower + w.upper) / 2.0

/-- The width of the part of a bracket that a zoom leaves.  The exponent has 32 bits. -/
def zoomedWidth (bracket : Window α) (zoom : Nat) : α :=
  (bracket.upper - bracket.lower) / Scalar.zpower 2.0 zoom.toInt32

/-- The part of a bracket that is shown.  A bracket without a positive width is shown whole; a part
that is wider than the bracket is refused. -/
def zoomed? (bracket : Window α) (focus : Option α) (zoom : Nat) : Option (Window α) :=
  let width := bracket.zoomedWidth zoom
  if zoom = 0 || Scalar.isNaN width || decide (width ≤ 0.0) then some bracket
  else
    let centre := (focus.filter Scalar.isFinite).getD bracket.middle
    let start? := Scalar.clamp? (centre - width / 2.0) bracket.lower (bracket.upper - width)
    start?.map fun start => ⟨start, start + width⟩

/-- Three labels: at the lower end, in the middle, and at the upper end. -/
def labels (w : Window Float) : List String :=
  [w.lower, w.middle, w.upper].map (Decimal.ceiling 3)

end Window

/-! ## The curve -/

namespace Curve

variable {α : Type} [Scalar α]

/-- Points of the curve at `count` places, at least two, with the same distance from one to the
next; places without a finite value are left out. -/
def sample (g : Characteristic α) (w : Window α) (count : Nat) : List (α × α) :=
  let steps := max count 2 - 1
  let places := (List.range (steps + 1)).map fun i =>
    w.lower + (w.upper - w.lower) * Scalar.ofNat i / Scalar.ofNat steps
  (places.map fun x => (x, g.value x)).filter fun p => Scalar.isFinite p.2

/-- The values that some points and the zero line need, with a margin. -/
def heights (points : List (α × α)) : Window α :=
  let least := points.foldl (fun y p => Scalar.min y p.2) 0.0
  let greatest := points.foldl (fun y p => Scalar.max y p.2) 0.0
  let margin := Scalar.max ((greatest - least) * 0.05) 1e-12
  ⟨least - margin, greatest + margin⟩

/-- How many places of the window are sampled. -/
def sampleCount : Nat :=
  240

end Curve

/-! ## The pane -/

/-- What is inside the border of the pane. -/
inductive Plot
  /-- There is no curve to show. -/
  | message (text : String)
  /-- The labels of the two axes, in ascending order. -/
  | axes (x y : List String)
  /-- The window is refused, and nothing is drawn. -/
  | refused
  deriving DecidableEq, Repr

/-- The pane with the curve. -/
structure PlotPane where
  /-- The top of the border. -/
  top : Row
  border : Style
  plot : Plot
  deriving DecidableEq, Repr

namespace Curve

/-- The title, which tells the point in focus. -/
def title : Option (Float × Float) → String
  | some (x, value) =>
    " g(x)   x = " ++ Decimal.fixed 10 (.ofFloat x) ++ "   g = " ++ Event.brief value ++ " "
  | none => " g(x) "

/-- The labels of the axes, or why there are none. -/
def plot (g : Characteristic Float) (bracket : Option (Window Float))
    (point : Option (Float × Float)) (zoom : Nat) : Plot :=
  if g.isEmpty then .message "(no function terms to plot)"
  else match (bracket.getD .standard).zoomed? (point.map Prod.fst) zoom with
    | none => .refused
    | some shown => .axes shown.labels (heights (sample g shown sampleCount)).labels

/-- The pane. -/
def draw (g : Characteristic Float) (bracket : Option (Window Float))
    (point : Option (Float × Float)) (zoom : Nat) (isFocused : Bool) (width : Nat) : PlotPane :=
  let border := Palette.border isFocused
  let ground := if g.isEmpty then Style.coloured Palette.muted else .plain
  ⟨Panel.top ⟨title point, border, ground, 0⟩ width, border.atop ground, plot g bracket point zoom⟩

end Curve

end GrowthOrder.Explorer
