/-!
# GrowthOrder.Explorer.Style

How cells of the screen look: colours, bold and dim, and the palette of the explorer.

Styles are laid over each other with `Style.atop`: a colour that the upper style sets wins, one that
it leaves open shows what is below, and bold and dim add up.
-/

namespace GrowthOrder.Explorer

/-- A colour. -/
inductive Colour
  | black
  | rgb (red green blue : UInt8)
  deriving DecidableEq, Repr

/-- The look of a cell; a colour that is not set is left to what is below. -/
structure Style where
  foreground : Option Colour
  background : Option Colour
  isBold : Bool
  isDim : Bool
  deriving DecidableEq, Repr

namespace Style

/-- The style that sets nothing. -/
def plain : Style :=
  ⟨none, none, false, false⟩

/-- Text in a colour. -/
def coloured (colour : Colour) : Style :=
  { plain with foreground := some colour }

/-- Text in a colour on another one. -/
def onColour (foreground background : Colour) : Style :=
  { plain with foreground := some foreground, background := some background }

/-- The same style in bold. -/
def bold (s : Style) : Style :=
  { s with isBold := true }

/-- The same style dimmed. -/
def dim (s : Style) : Style :=
  { s with isDim := true }

/-- One style laid over another. -/
def atop (upper lower : Style) : Style where
  foreground := upper.foreground.or lower.foreground
  background := upper.background.or lower.background
  isBold := upper.isBold || lower.isBold
  isDim := upper.isDim || lower.isDim

theorem plain_atop (s : Style) : plain.atop s = s := rfl

theorem atop_plain (s : Style) : s.atop plain = s := by
  simp [atop, plain]

end Style

/-! ## The palette -/

namespace Palette

/-- Plain text. -/
def text : Colour := .rgb 205 214 244

/-- Headings, and the bracket of a search. -/
def heading : Colour := .rgb 137 180 250

/-- What is not an error but not settled: unbounded growth, playback. -/
def caution : Colour := .rgb 250 179 135

/-- What stands back: labels, borders, probes. -/
def muted : Colour := .rgb 108 112 134

/-- A root, and the start of a trace. -/
def success : Colour := .rgb 166 227 161

/-- No root, a step that is not used, and the end of a trace. -/
def failure : Colour := .rgb 243 139 168

/-- Numbers. -/
def number : Colour := .rgb 250 179 135

/-- The border of the pane in focus, and the mark of the current event. -/
def focus : Colour := .rgb 249 226 175

/-- What is behind the current event and behind the status line. -/
def bar : Colour := .rgb 50 50 70

/-- The name of the function. -/
def function : Colour := .rgb 249 226 175

/-- A root that is replaced by a whole number. -/
def snapped : Colour := .rgb 148 226 213

/-- Iterates of Newton's method. -/
def newton : Colour := .rgb 245 194 231

/-- The style of a border. -/
def border (isFocused : Bool) : Style :=
  if isFocused then (Style.coloured focus).bold else .coloured muted

end Palette

end GrowthOrder.Explorer
