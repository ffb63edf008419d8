import GrowthOrder.Recurrence

/-!
# GrowthOrder.Recurrence.Printer

The canonical text of a recurrence: `T(n) = 2*T(n-1) - T(n-2) + 5`.  Numbers are written so that
they read back to themselves.  A summand whose text starts with a minus sign is joined by ` - `
instead of ` + `, and an empty sum is `0`.
-/

namespace GrowthOrder

/-- The text of a coefficient, constant or shift; a negative zero is written as zero. -/
def Decimal.amount (x : Float) : String :=
  Decimal.text Decimal.plain (x + 0.0)

namespace Call

/-- The factor in front of a call; a coefficient of 1 or -1 leaves only its sign. -/
def factorText (coefficient : Float) : String :=
  if coefficient == 1.0 then ""
  else if coefficient == -1.0 then "-"
  else Decimal.amount coefficient ++ "*"

/-- A variable with its shift, which is left out where it is zero. -/
def argumentText (name : String) (shift : Float) : String :=
  if shift == 0.0 then name
  else if shift < 0.0 then name ++ "-" ++ Decimal.amount (-shift)
  else name ++ "+" ++ Decimal.amount shift

/-- The text of a call. -/
def text (c : Call Float) : String :=
  factorText c.coefficient ++ c.function ++ "("
    ++ String.intercalate ", " (List.zipWith argumentText c.parameters c.shifts) ++ ")"

end Call

/-- The text of a summand. -/
def Term.text : Term Float → String
  | constant c => Decimal.amount c
  | call c => c.text

namespace Recurrence

/-- The text of a summand after another one, with the sign between them. -/
def joined (t : String) : String :=
  match t.toList with
  | '-' :: cs => " - " ++ String.ofList cs
  | _ => " + " ++ t

/-- The text of a sum. -/
def sumText : List (Term Float) → String
  | [] => "0"
  | t :: ts => t.text ++ String.join (ts.map fun u => joined u.text)

/-- The canonical text of a recurrence from behind the name of its function on. -/
def textAfterName (r : Recurrence Float) : String :=
  "(" ++ String.intercalate ", " r.parameters ++ ") = " ++ sumText r.terms

/-- The canonical text of a recurrence. -/
def text (r : Recurrence Float) : String :=
  r.function ++ r.textAfterName

end Recurrence

end GrowthOrder
