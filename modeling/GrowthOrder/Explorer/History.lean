import GrowthOrder.Explorer.Canvas
import GrowthOrder.Explorer.Cursor
import GrowthOrder.Search.Event

/-!
# GrowthOrder.Explorer.History

The pane with the events of a search, one on each row.  The current event is marked, and events
behind it stand back.  The pane scrolls along with the cursor, or by hand.
-/

namespace GrowthOrder.Explorer.History

/-- The colour of an event. -/
def eventColour {α : Type} : Event α → Colour
  | .probe _ _ => Palette.muted
  | .bracket _ _ => Palette.heading
  | .newton _ _ _ => Palette.newton
  | .rejected _ => Palette.failure
  | .brent _ _ _ _ => Palette.text
  | .snapped _ _ => Palette.snapped
  | .finished (.finite _) => Palette.success
  | .finished _ => Palette.failure

/-- The style of the event at `index` while the cursor stands at `position`. -/
def eventStyle {α : Type} (position index : Nat) (e : Event α) : Style :=
  if index = position then (Style.onColour (eventColour e) Palette.bar).bold
  else if position < index then (Style.coloured Palette.muted).dim
  else .coloured (eventColour e)

/-- The line of the event at `index`. -/
def eventLine (position index : Nat) (e : Event Float) : Line :=
  .ofSpans [⟨if index = position then "▶ " else "  ", .coloured Palette.focus⟩,
    ⟨Text.padLeft 3 (toString (index + 1)) ++ " ", .coloured Palette.muted⟩,
    ⟨e.describe, eventStyle position index e⟩]

/-- The lines of the events from `index` on. -/
def eventLines (position : Nat) : Nat → List (Event Float) → List Line
  | _, [] => []
  | index, e :: es => eventLine position index e :: eventLines position (index + 1) es

/-- The title. -/
def title (t : Trace Float) : String :=
  " Trace (" ++ toString t.iterations ++ " iterations) "

/-- The offset that the pane scrolls to: no further than the last event, and to the cursor if it is
followed. -/
def scrollTo (count position : Nat) (follows : Bool) (scroll visible : Nat) : Nat :=
  let scroll := min scroll (count - visible)
  if follows then reveal scroll position visible else scroll

/-- The pane. -/
def draw (t : Trace Float) (position : Nat) (follows isFocused : Bool) (scroll : Nat)
    (size : Size) : Scrolled :=
  let border := Palette.border isFocused
  if t.isEmpty then
    let panel : Panel := ⟨title t, border, .coloured Palette.muted, 0⟩
    ⟨panel.draw size [.ofText "(no events)"], scroll⟩
  else
    let panel : Panel := ⟨title t, border, .plain, 0⟩
    let scroll := scrollTo t.length position follows scroll size.visibleRows
    let shown := (t.drop scroll).take size.visibleRows
    ⟨panel.draw size (eventLines position scroll shown), scroll⟩

end GrowthOrder.Explorer.History
