import GrowthOrder.Explorer.Curve
import GrowthOrder.Explorer.History
import GrowthOrder.Explorer.Overview
import GrowthOrder.Explorer.Session
import GrowthOrder.Explorer.StatusLine

/-!
# GrowthOrder.Explorer.Screen

The whole screen of a session.  The last row is the status line.  Above it, the left column has 45
percent of the width, with the overview in the upper 45 percent of it and the history below; the
right column shows the curve.

Drawing also settles how far the two panes on the left are scrolled: `Session.draw` returns the
session with both offsets as they were drawn.
-/

namespace GrowthOrder.Explorer

/-- What is on the screen. -/
structure Screen where
  overview : List Row
  history : List Row
  plot : PlotPane
  status : Row

/-- A pane with a curve in words, for a terminal that cannot draw it. -/
def PlotPane.lines (p : PlotPane) : List String :=
  p.top.text :: match p.plot with
    | .message text => [text]
    | .axes x y => ["x: " ++ String.intercalate ", " x, "g(x): " ++ String.intercalate ", " y]
    | .refused => []

/-- The lines of a screen, one part below the other. -/
def Screen.lines (s : Screen) : List String :=
  s.overview.map Row.text ++ s.history.map Row.text ++ s.plot.lines ++ [s.status.text]

namespace Session

/-- The bracket of the search, as a window. -/
def bracket? (s : Session) : Option (Window Float) :=
  s.trace.bracket?.map fun b => ⟨b.1, b.2⟩

/-- The screen of a session, and the session with the offsets that were drawn. -/
def draw (s : Session) (size : Size) : Screen × Session :=
  let height := size.height - 1
  let left := percent 45 size.width
  let upper := percent 45 height
  let overview := Overview.draw s.source s.analysis (s.focus == .overview) s.overviewScroll
    ⟨left, upper⟩
  let history := History.draw s.trace s.cursor.position s.follows (s.focus == .history)
    s.historyScroll ⟨left, height - upper⟩
  let plot := Curve.draw (.ofRecurrence s.analysis.recurrence) s.bracket? s.point? s.zoom
    (s.focus == .curve) (size.width - left)
  let status := StatusLine.draw s.notice.message s.cursor s.isPlaying size.width
  (⟨overview.rows, history.rows, plot, status⟩,
    { s with overviewScroll := overview.scroll, historyScroll := history.scroll })

end Session

end GrowthOrder.Explorer
