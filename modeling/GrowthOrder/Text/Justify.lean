/-!
# GrowthOrder.Text.Justify

Texts filled up with blanks to a given length.  A text that is longer stays as it is.
-/

namespace GrowthOrder.Text

/-- Blanks behind a text up to the given length. -/
def padRight (length : Nat) (s : String) : String :=
  s ++ String.ofList (List.replicate (length - s.length) ' ')

/-- Blanks in front of a text up to the given length. -/
def padLeft (length : Nat) (s : String) : String :=
  String.ofList (List.replicate (length - s.length) ' ') ++ s

end GrowthOrder.Text
