import GrowthOrder.Growth
import GrowthOrder.Recurrence.Parser
import GrowthOrder.Recurrence.Printer
import GrowthOrder.Report.Json

/-!
# GrowthOrder.Analysis

A recurrence together with its dominant root, and the two reports about it: lines of text, and a
JSON object.  Both come in a verbose form with the recurrence itself.

The reports tell the same.  A finite root is reported by its growth order; no root is the one
outcome that is not a success.
-/

namespace GrowthOrder

/-- Why there is nothing to report. -/
inductive AnalysisFault
  /-- The input cannot be read. -/
  | unreadable (reason : String)
  /-- The input holds nothing but blanks. -/
  | emptyInput
  | parse (e : ParseError)
  | unsupported (e : UnsupportedInput)

/-- The message for a fault. -/
def AnalysisFault.message : AnalysisFault → String
  | unreadable reason => "Could not read input: " ++ reason
  | emptyInput => "Empty input"
  | parse e => e.describe
  | unsupported e => "Solver error: " ++ e.message

/-- A recurrence and its dominant root. -/
structure Analysis where
  recurrence : Recurrence Float
  root : Root Float

namespace Analysis

/-- Read and solve a recurrence, with the events of the search. -/
def ofText (text : String) : Except AnalysisFault (Analysis × Trace Float) :=
  match Recurrence.parse text with
  | .error e => .error (.parse e)
  | .ok r => match r.dominantRoot with
    | .error e => .error (.unsupported e)
    | .ok search => .ok (⟨r, search.result⟩, search.events)

/-- The first variable; the empty text if there is none. -/
def subject (a : Analysis) : String :=
  a.recurrence.parameters.head?.getD ""

/-- The growth order, where the root is finite. -/
def growthOrder (a : Analysis) : Except AnalysisFault String :=
  match a.recurrence.growthOrder a.root with
  | .error e => .error (.unsupported e)
  | .ok order => .ok order

/-- Whether the analysis found growth at all. -/
def isSuccess (a : Analysis) : Bool :=
  !a.root.isInfeasible

/-! ## Report as text -/

/-- The lines about the recurrence that a verbose report starts with. -/
def recurrenceLines (a : Analysis) : List String :=
  ["Recurrence: " ++ a.recurrence.text, "Function:   " ++ a.recurrence.function,
    "Variable:   " ++ a.subject]

/-- The lines about the outcome. -/
def outcomeLines (a : Analysis) (verbose : Bool) : Except AnalysisFault (List String) :=
  match a.root with
  | .divergent => .ok ["Result: Divergent (infinite growth)"]
  | .infeasible => .ok ["Result: No valid root (check for non-positive shifts)"]
  | .finite r => match a.growthOrder with
    | .error e => .error e
    | .ok order =>
      if verbose then
        .ok ["Root:       " ++ Decimal.text Decimal.plain r, "Asymptotics: " ++ order]
      else .ok [order]

/-- The report as lines of text. -/
def textReport (a : Analysis) (verbose : Bool) : Except AnalysisFault String :=
  match a.outcomeLines verbose with
  | .error e => .error e
  | .ok lines =>
    .ok (String.intercalate "\n" ((if verbose then a.recurrenceLines else []) ++ lines))

end Analysis

/-! ## Report as JSON -/

/-- A report for programs.  Fields that do not apply are left out. -/
structure Report where
  ok : Bool
  divergent : Option Bool
  /-- The variable and the root. -/
  root : Option (String × Float)
  asymptotics : Option String
  error : Option String
  recurrence : Option String
  function : Option String
  parameters : Option (List String)

namespace Report

/-- The report that nothing is known. -/
def blank : Report :=
  ⟨false, none, none, none, none, none, none, none⟩

/-- The report of a failure. -/
def failure (message : String) : Report :=
  { blank with error := some message }

/-- A field that may be left out. -/
def optional {β : Type} (key : String) (f : β → JsonValue) (value : Option β) :
    List (String × JsonValue) :=
  (value.map fun v => (key, f v)).toList

/-- The report as a JSON object. -/
def toJson (r : Report) : JsonValue :=
  .object (("ok", .bool r.ok) ::
    optional "divergent" .bool r.divergent
      ++ optional "root" (fun p => .object [(p.1, .number p.2)]) r.root
      ++ optional "asymptotics" .string r.asymptotics
      ++ optional "error" .string r.error
      ++ optional "recurrence" .string r.recurrence
      ++ optional "function" .string r.function
      ++ optional "variables" (fun names => .list (names.map .string)) r.parameters)

end Report

namespace Analysis

/-- The report about the outcome alone. -/
def outcomeReport (a : Analysis) : Except AnalysisFault Report :=
  match a.root with
  | .divergent => .ok { Report.blank with ok := true, divergent := some true }
  | .infeasible => .ok (.failure "No valid root found (non-positive shifts)")
  | .finite r => match a.growthOrder with
    | .error e => .error e
    | .ok order => .ok { Report.blank with
        ok := true
        divergent := some false
        root := some (a.subject, r)
        asymptotics := some order }

/-- The report for programs. -/
def report (a : Analysis) (verbose : Bool) : Except AnalysisFault Report :=
  match a.outcomeReport with
  | .error e => .error e
  | .ok r =>
    if verbose then .ok { r with
      recurrence := some a.recurrence.text
      function := some a.recurrence.function
      parameters := some a.recurrence.parameters }
    else .ok r

end Analysis

end GrowthOrder
