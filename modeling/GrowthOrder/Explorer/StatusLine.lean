import GrowthOrder.Explorer.Canvas
import GrowthOrder.Explorer.Cursor

/-!
# GrowthOrder.Explorer.StatusLine

The last row of the screen: on the left the place in the trace and a message, on the right the keys
and whether the trace plays or the cursor is at one of its ends.
-/

namespace GrowthOrder.Explorer.StatusLine

/-- A style on the bar. -/
def onBar (colour : Colour) : Style :=
  .onColour colour Palette.bar

/-- A text that stands out. -/
def badge (text : String) (background : Colour) : Span :=
  ⟨text, (Style.onColour .black background).bold⟩

/-- The bar between two groups. -/
def separator : Span :=
  ⟨"│", onBar Palette.muted⟩

/-- The place in the trace, and a message. -/
def placeLine (message : String) (cursor : Cursor) : Line :=
  .ofSpans [
    badge (" Event " ++ toString (cursor.position + 1) ++ "/" ++ toString cursor.length ++ " ")
      Palette.heading,
    ⟨" | ", onBar Palette.muted⟩, ⟨" " ++ message ++ " ", onBar Palette.text⟩]

/-- The keys, and what they do. -/
def keys : List (String × String) :=
  [(" ←/→ ", " step "), (" ⎵ ", " play "), (" ↵ / ⌫ ", " end/start "), (" ⇥ ", " focus "),
    (" ↑/↓ ", " scroll/zoom "), ("q", " quit ")]

/-- A key, and what it does. -/
def keySpans (key : String × String) : List Span :=
  [⟨key.1, .onColour .black Palette.muted⟩, ⟨key.2, onBar Palette.text⟩]

/-- What playback does, or which end of the trace the cursor is at. -/
def indicator? (cursor : Cursor) (isPlaying : Bool) : Option Span :=
  if isPlaying then some (badge " ▶ PLAYING " Palette.caution)
  else if cursor.atEnd then some (badge " END " Palette.failure)
  else if cursor.atStart then some (badge " START " Palette.success)
  else none

/-- The keys and the indicator. -/
def keyLine (cursor : Cursor) (isPlaying : Bool) : Line :=
  let groups := keys.map keySpans
  .ofSpans ((groups.intersperse [separator, ⟨" ", onBar Palette.text⟩]).flatten
    ++ ((indicator? cursor isPlaying).map fun span => [separator, span]).getD [])

/-- The row; the left part has 45 percent of its width. -/
def draw (message : String) (cursor : Cursor) (isPlaying : Bool) (width : Nat) : Row :=
  let ground : Style := { Style.plain with background := some Palette.bar }
  let room := percent 45 width
  Row.left ground room (placeLine message cursor)
    ++ Row.right ground (width - room) (keyLine cursor isPlaying)

end GrowthOrder.Explorer.StatusLine
