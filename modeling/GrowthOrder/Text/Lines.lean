import GrowthOrder.Text.Blank

/-!
# GrowthOrder.Text.Lines

The lines of a text, and a text without the blanks around it.
-/

namespace GrowthOrder.Text

/-- A line without a carriage return at its end. -/
def dropReturn (line : List Char) : List Char :=
  if line.getLast? = some '\r' then line.dropLast else line

/-- The lines of a text.  A line ends at a line feed, in front of which a carriage return is
dropped; no line follows the last line feed. -/
def lines (cs : List Char) : List (List Char) :=
  match h : cs.dropWhile (· != '\n') with
  | [] => if cs = [] then [] else [cs]
  | _ :: rest =>
    have : rest.length < cs.length := by
      have := (List.dropWhile_suffix (l := cs) (· != '\n')).length_le
      rw [h, List.length_cons] at this
      omega
    dropReturn (cs.takeWhile (· != '\n')) :: lines rest
termination_by cs.length

/-- A text without the blanks at its start and end. -/
def trim (s : String) : String :=
  String.ofList (((s.toList.dropWhile isBlank).reverse.dropWhile isBlank).reverse)

end GrowthOrder.Text
