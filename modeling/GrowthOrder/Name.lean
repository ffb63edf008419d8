import GrowthOrder.Text.Letter
import GrowthOrder.Text.Numeral

/-!
# GrowthOrder.Name

Names of functions and variables.  A name starts with a letter of any script and goes on with
letters, numerals, `_` and braces, so that `n_{1}` is one name.
-/

namespace GrowthOrder.Name

/-- Whether a name may start with `c`. -/
def isStart (c : Char) : Bool :=
  Text.isLetter c

/-- Whether a name may go on with `c`. -/
def isContinue (c : Char) : Bool :=
  Text.isLetter c || Text.isNumeral c || c == '_' || c == '\x7b' || c == '\x7d'

/-- Whether a text is a name. -/
def isValid (s : String) : Bool :=
  match s.toList with
  | [] => false
  | c :: cs => isStart c && cs.all isContinue

end GrowthOrder.Name
