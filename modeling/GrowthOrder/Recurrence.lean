import GrowthOrder.Name
import GrowthOrder.Decimal.Shortest

/-!
# GrowthOrder.Recurrence

Linear recurrences: a function of some variables is the sum of constants and of calls of the same
function, each with a coefficient, at shifted variables.

* `Call.checked` and `Recurrence.checked` build a call and a recurrence from parts, or name the
  first rule that the parts break.
* The number type is a parameter; `==` compares coefficients and shifts as that type does, so on
  `Float` a negative zero equals zero.
-/

namespace GrowthOrder

/-- A function call with a coefficient: `2*T(n-1, m)` has the shifts `-1` and `0`. -/
structure Call (α : Type) where
  coefficient : α
  function : String
  /-- The names of the variables. -/
  parameters : List String
  /-- What is added to each variable, in the order of the variables. -/
  shifts : List α
  deriving BEq

/-- A summand of a recurrence. -/
inductive Term (α : Type)
  | constant (value : α)
  | call (call : Call α)
  deriving BEq

/-- A linear recurrence: the call it defines, and the summands. -/
structure Recurrence (α : Type) where
  signature : Call α
  terms : List (Term α)
  deriving BEq

/-! ## Rules that parts can break -/

/-- A rule of the model that some parts break. -/
inductive ModelFault (α : Type)
  /-- Not as many shifts as variables. -/
  | arity (parameters shifts : Nat)
  /-- A function or variable name that is not a name. -/
  | invalidName (name : String)
  /-- The defined call has a coefficient other than 1. -/
  | signatureCoefficient (coefficient : α)
  /-- The defined call has a shift other than 0. -/
  | signatureShifts (shifts : List α)
  /-- A variable occurs twice in the defined call. -/
  | duplicateVariable (name : String)
  /-- A summand calls another function. -/
  | foreignFunction (expected found : String)
  /-- A summand calls the function at other variables. -/
  | foreignParameters (expected found : List String)

namespace ModelFault

/-- Some texts in brackets. -/
def bracketed (texts : List String) : String :=
  "[" ++ String.intercalate ", " texts ++ "]"

/-- Names in quotes and brackets; a name holds nothing that has to be escaped. -/
def quotedNames (names : List String) : String :=
  bracketed (names.map fun name => "\"" ++ name ++ "\"")

/-- The message for a broken rule. -/
def message : ModelFault Float → String
  | arity parameters shifts =>
    "variables and shifts must have same length: " ++ toString parameters ++ " vs "
      ++ toString shifts
  | invalidName name => "invalid identifier '" ++ name ++ "'"
  | signatureCoefficient coefficient =>
    "lhs coefficient must be 1, got " ++ Decimal.text Decimal.plain coefficient
  | signatureShifts shifts =>
    "lhs shifts must all be 0, got " ++ bracketed (shifts.map (Decimal.text Decimal.tagged))
  | duplicateVariable name => "duplicate variable name '" ++ name ++ "'"
  | foreignFunction expected found =>
    "rhs term uses function '" ++ found ++ "', expected '" ++ expected ++ "'"
  | foreignParameters expected found =>
    "rhs term variables " ++ quotedNames found ++ " do not match lhs variables "
      ++ quotedNames expected

end ModelFault

/-! ## Calls -/

namespace Call

variable {α : Type}

/-- A call from its parts. -/
def checked (coefficient : α) (function : String) (parameters : List String) (shifts : List α) :
    Except (ModelFault α) (Call α) :=
  if parameters.length ≠ shifts.length then .error (.arity parameters.length shifts.length)
  else match (function :: parameters).find? fun name => !Name.isValid name with
    | some name => .error (.invalidName name)
    | none => .ok ⟨coefficient, function, parameters, shifts⟩

/-- The call that a recurrence for this function of these variables defines. -/
def signature [Scalar α] (function : String) (parameters : List String) :
    Except (ModelFault α) (Call α) :=
  checked 1.0 function parameters (parameters.map fun _ => 0.0)

end Call

/-! ## Terms -/

namespace Term

variable {α : Type}

/-- The call, if the summand is one. -/
def call? : Term α → Option (Call α)
  | constant _ => none
  | call c => some c

/-- The constant, if the summand is one. -/
def constant? : Term α → Option α
  | constant c => some c
  | call _ => none

/-- The calls among some summands. -/
def calls (ts : List (Term α)) : List (Call α) :=
  ts.filterMap call?

end Term

/-! ## Recurrences -/

namespace Recurrence

variable {α : Type}

/-- The function that a recurrence defines. -/
def function (r : Recurrence α) : String :=
  r.signature.function

/-- The variables of the defined function. -/
def parameters (r : Recurrence α) : List String :=
  r.signature.parameters

/-- The calls among the summands. -/
def calls (r : Recurrence α) : List (Call α) :=
  Term.calls r.terms

/-- The first name that occurs among the names before it. -/
def firstRepeated? (before : List String) : List String → Option String
  | [] => none
  | name :: names => if name ∈ before then some name else firstRepeated? (before ++ [name]) names

/-- The rule that a call in the sum breaks, given the defined call. -/
def callFault? (signature call : Call α) : Option (ModelFault α) :=
  if call.function ≠ signature.function then
    some (.foreignFunction signature.function call.function)
  else if call.parameters ≠ signature.parameters then
    some (.foreignParameters signature.parameters call.parameters)
  else none

/-- A recurrence from the call it defines and the summands. -/
def checked [Scalar α] (signature : Call α) (terms : List (Term α)) :
    Except (ModelFault α) (Recurrence α) :=
  if !(signature.coefficient == (1.0 : α)) then
    .error (.signatureCoefficient signature.coefficient)
  else if signature.shifts.any fun s => !(s == (0.0 : α)) then
    .error (.signatureShifts signature.shifts)
  else match firstRepeated? [] signature.parameters with
    | some name => .error (.duplicateVariable name)
    | none => match (Term.calls terms).findSome? (callFault? signature) with
      | some fault => .error fault
      | none => .ok ⟨signature, terms⟩

end Recurrence

end GrowthOrder
