import GrowthOrder.Text.Blank

/-!
# GrowthOrder.Place

Places in a text, and a text without its blanks.  Blanks carry no meaning in a recurrence, so they
are dropped before anything is read; each remaining character, a `Glyph`, remembers where it stood.

* A line ends at a line feed; lines and columns count from 1.
* The offset of a glyph is its position among the glyphs, from 0.
-/

namespace GrowthOrder

/-- A place: line and column in the text as given, and offset in the text without blanks. -/
structure Place where
  line : Nat
  column : Nat
  offset : Nat
  deriving DecidableEq, Repr

/-- Line and column in words. -/
def Place.describe (p : Place) : String :=
  "line " ++ toString p.line ++ ", column " ++ toString p.column

/-- A character that is not a blank, and where it stands. -/
structure Glyph where
  char : Char
  place : Place
  deriving DecidableEq, Repr

namespace Glyph

/-- The glyphs of a text that starts at `p`, and the place where the text ends. -/
def scanFrom (p : Place) : List Char → List Glyph × Place
  | [] => ([], p)
  | c :: cs =>
    if c = '\n' then scanFrom { p with line := p.line + 1, column := 1 } cs
    else if Text.isBlank c then scanFrom { p with column := p.column + 1 } cs
    else
      let rest := scanFrom { p with column := p.column + 1, offset := p.offset + 1 } cs
      (⟨c, p⟩ :: rest.1, rest.2)

/-- The glyphs of a text, and the place where it ends. -/
def scan (text : String) : List Glyph × Place :=
  scanFrom ⟨1, 1, 0⟩ text.toList

/-- The characters of some glyphs. -/
def chars (gs : List Glyph) : List Char :=
  gs.map Glyph.char

end Glyph

end GrowthOrder
