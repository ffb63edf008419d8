import GrowthOrder.Analysis
import GrowthOrder.Explorer.Canvas
import GrowthOrder.Text.Justify
import GrowthOrder.Text.Lines

/-!
# GrowthOrder.Explorer.Overview

The pane with the recurrence: the input as it was given, the canonical form, a table of the
summands, and the result.

The pane scrolls by whole lines, no further than its last line.  `skipped` says how many lines an
offset leaves out above the first row.
-/

namespace GrowthOrder.Explorer.Overview

/-! ## Lines -/

/-- A heading. -/
def heading (text : String) : Line :=
  .ofSpans [⟨text, (Style.coloured Palette.heading).bold⟩]

/-- A label in a table. -/
def label (text : String) : Span :=
  ⟨text, .coloured Palette.muted⟩

/-- A number in a table. -/
def number (text : String) : Span :=
  ⟨text, .coloured Palette.number⟩

/-- A summand: a constant, or the coefficient of a call and how far it looks back. -/
def termLine : Term Float → Line
  | .constant c => .ofSpans [label "  const  ", number (Decimal.amount c)]
  | .call c => .ofSpans [label "  c = ", number (Text.padRight 8 (Decimal.amount c.coefficient)),
      label " d = ", number (Decimal.amount (-(c.shifts.head?.getD 0.0) + 0.0))]

/-- The lines of the input. -/
def inputLines (source : String) : List Line :=
  (Text.lines source.toList).map fun l => .ofText ("  " ++ String.ofList l)

/-- The canonical form, in which the function stands out. -/
def canonicalLine (r : Recurrence Float) : Line :=
  .ofSpans [⟨"  ", .plain⟩, ⟨r.function, .coloured Palette.function⟩, ⟨r.textAfterName, .plain⟩]

/-- The table of the summands. -/
def termLines : List (Term Float) → List Line
  | [] => [.styled "  (none)" (.coloured Palette.muted)]
  | ts => ts.map termLine

/-- The growth order of a finite root. -/
def growthText (r : Recurrence Float) (root : Float) : String :=
  match r.growthOrder (.finite root) with
  | .error e => "  " ++ e.message
  | .ok order => "  " ++ order ++ "   (r = " ++ Decimal.text Decimal.plain root ++ ")"

/-- The result. -/
def resultLine (a : Analysis) : Line :=
  match a.root with
  | .finite root => .styled (growthText a.recurrence root) (.coloured Palette.success)
  | .divergent => .styled "  divergent (infinite growth)" (.coloured Palette.caution)
  | .infeasible =>
    .styled "  no valid root (check for non-positive shifts)" (.coloured Palette.failure)

/-- All lines of the pane. -/
def lines (source : String) (a : Analysis) : List Line :=
  heading "Input" :: inputLines source
    ++ .blank :: heading "Canonical" :: canonicalLine a.recurrence
    :: .blank :: heading "Terms" :: termLines a.recurrence.terms
    ++ [.blank, heading "Result", resultLine a]

/-! ## The pane -/

/-- How many lines are skipped for a scroll offset; sixteen bits count them. -/
def skipped (scroll : Nat) : Nat :=
  scroll.toUInt16.toNat

/-- The box of the pane. -/
def panel (isFocused : Bool) : Panel :=
  ⟨" Recurrence ", Palette.border isFocused, .coloured Palette.text, 1⟩

/-- The pane, scrolled no further than its last line. -/
def draw (source : String) (a : Analysis) (isFocused : Bool) (scroll : Nat) (size : Size) :
    Scrolled :=
  let all := lines source a
  let scroll := min scroll (all.length - size.visibleRows)
  ⟨(panel isFocused).draw size (all.drop (skipped scroll)), scroll⟩

end GrowthOrder.Explorer.Overview
