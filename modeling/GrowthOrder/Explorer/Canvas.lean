import GrowthOrder.Explorer.Style
import GrowthOrder.Text.Columns

/-!
# GrowthOrder.Explorer.Canvas

Styled text on a grid of cells.  A `Line` is text in spans of one style each; `Row.left` and
`Row.right` put it on a row of a given width; a `Panel` is a bordered box of such rows.

* A control character takes no cell.  A wide character takes two, and the second one is blank.
* Text that does not fit is cut; what text does not fill shows the ground.
* `length_left` and `length_right`: a row has the width that it is made for.
-/

namespace GrowthOrder.Explorer

/-- One place on the screen. -/
structure Cell where
  symbol : Char
  style : Style
  deriving DecidableEq, Repr

/-- A row of the screen, from left to right. -/
abbrev Row :=
  List Cell

/-- A piece of text in one style. -/
structure Span where
  text : String
  style : Style
  deriving DecidableEq, Repr

/-- A line of text; the styles of its spans lie over its own. -/
structure Line where
  spans : List Span
  style : Style
  deriving DecidableEq, Repr

namespace Line

/-- A line without text. -/
def blank : Line :=
  ⟨[], .plain⟩

/-- A line of spans. -/
def ofSpans (spans : List Span) : Line :=
  ⟨spans, .plain⟩

/-- A line in one style. -/
def styled (text : String) (style : Style) : Line :=
  ⟨[⟨text, .plain⟩], style⟩

/-- A line of plain text. -/
def ofText (text : String) : Line :=
  styled text .plain

/-- The characters of a line over a ground. -/
def cells (ground : Style) (line : Line) : List Cell :=
  line.spans.flatMap fun span =>
    span.text.toList.map fun c => ⟨c, span.style.atop (line.style.atop ground)⟩

end Line

/-! ## Rows -/

namespace Row

/-- A blank row. -/
def blank (ground : Style) (width : Nat) : Row :=
  List.replicate width ⟨' ', ground⟩

/-- The symbols of a row. -/
def text (row : Row) : String :=
  String.ofList (row.map Cell.symbol)

/-- Put characters on cells as long as there is room. -/
def fill (ground : Style) : Nat → List Cell → Row
  | _, [] => []
  | room, c :: cs =>
    match Text.columns c.symbol with
    | 0 => fill ground room cs
    | more + 1 =>
      if more + 1 ≤ room then c :: blank ground more ++ fill ground (room - (more + 1)) cs
      else []

theorem length_fill_le (ground : Style) (room : Nat) (cs : List Cell) :
    (fill ground room cs).length ≤ room := by
  induction cs generalizing room with
  | nil => exact Nat.zero_le room
  | cons c cs ih =>
    rw [fill]
    split
    · exact ih room
    · next more _ =>
      split
      · have := ih (room - (more + 1))
        simp only [blank, List.cons_append, List.length_cons, List.length_append,
          List.length_replicate]
        omega
      · exact Nat.zero_le room

/-- The part of a line that fits a width. -/
def cut (ground : Style) (width : Nat) (line : Line) : Row :=
  fill ground width ((line.cells ground).filter fun c => Text.columns c.symbol ≤ width)

theorem length_cut_le (ground : Style) (width : Nat) (line : Line) :
    (cut ground width line).length ≤ width :=
  length_fill_le _ _ _

/-- A line on a row, from the left. -/
def left (ground : Style) (width : Nat) (line : Line) : Row :=
  let shown := cut ground width line
  shown ++ blank ground (width - shown.length)

/-- A line on a row, up to the right end. -/
def right (ground : Style) (width : Nat) (line : Line) : Row :=
  let shown := cut ground width line
  blank ground (width - shown.length) ++ shown

theorem length_left (ground : Style) (width : Nat) (line : Line) :
    (left ground width line).length = width := by
  have := length_cut_le ground width line
  simp only [left, blank, List.length_append, List.length_replicate]
  omega

theorem length_right (ground : Style) (width : Nat) (line : Line) :
    (right ground width line).length = width := by
  have := length_cut_le ground width line
  simp only [right, blank, List.length_append, List.length_replicate]
  omega

end Row

/-! ## Panels -/

/-- The extent of a part of the screen. -/
structure Size where
  width : Nat
  height : Nat
  deriving DecidableEq, Repr

/-- The given percentage of an extent, rounded to the nearest whole. -/
def percent (share extent : Nat) : Nat :=
  (share * extent + 50) / 100

namespace Size

/-- The size within a border. -/
def inner (size : Size) : Size :=
  ⟨size.width - 2, size.height - 2⟩

/-- How many rows a pane counts with when it scrolls: those within its border, at least one. -/
def visibleRows (size : Size) : Nat :=
  max size.inner.height 1

end Size

/-- A box with a border. -/
structure Panel where
  title : String
  border : Style
  /-- The style of all that is in the box. -/
  ground : Style
  /-- Blank cells on the left of the text. -/
  padding : Nat

namespace Panel

/-- The cells of a border. -/
def edge (p : Panel) (symbols : List Char) : Row :=
  symbols.map fun c => ⟨c, p.border.atop p.ground⟩

/-- A row between two cells of the border; the second one gives way where there is no room. -/
def enclose (p : Panel) (first last : Char) (width : Nat) (row : Row) : Row :=
  (p.edge [first] ++ row ++ p.edge [last]).take width

/-- The top of the border, on which the title is written. -/
def top (p : Panel) (width : Nat) : Row :=
  let room := width - 2
  let title := Row.cut (p.border.atop p.ground) room (.ofText p.title)
  p.enclose '┌' '┐' width (title ++ p.edge (List.replicate (room - title.length) '─'))

/-- The bottom of the border. -/
def bottom (p : Panel) (width : Nat) : Row :=
  p.enclose '└' '┘' width (p.edge (List.replicate (width - 2) '─'))

/-- What a line shows within the border. -/
def content (p : Panel) (width : Nat) (line : Line) : Row :=
  (Row.blank p.ground p.padding ++ Row.left p.ground (width - p.padding) line).take width

/-- The rows within the border: as many lines as there is room for, and blank rows below. -/
def inside (p : Panel) (size : Size) (lines : List Line) : List Row :=
  ((lines ++ List.replicate size.height Line.blank).take size.height).map (p.content size.width)

/-- The box with some lines in it. -/
def draw (p : Panel) (size : Size) (lines : List Line) : List Row :=
  let middle := (p.inside size.inner lines).map (p.enclose '│' '│' size.width)
  (p.top size.width :: middle ++ [p.bottom size.width]).take size.height

end Panel

/-- What a pane that scrolls shows, and how many lines are above. -/
structure Scrolled where
  rows : List Row
  scroll : Nat
  deriving DecidableEq, Repr

end GrowthOrder.Explorer
