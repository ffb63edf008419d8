import GrowthOrder.Recurrence.LikeTerms
import GrowthOrder.Search.Bracket
import GrowthOrder.Search.Brent
import GrowthOrder.Search.Newton

/-!
# GrowthOrder.Search.Dominant

The dominant root of a characteristic function: the root of at least 1 that gives the growth of the
recurrence.

* `Recurrence.dominantRoot` solves a recurrence in one variable, coefficients included.
* `dominantRoot` solves `Σ r ^ (-d) = 1` for given deltas, all coefficients 1.  It may be told
  where a root is expected; Newton's method tries from there first, and its answer stands only if
  it lies in the bracket.

Either way the search in a bracket decides in the end, and every step is recorded.  The last event
carries the outcome.
-/

namespace GrowthOrder

variable {α : Type} [Scalar α]

namespace Search

/-! ## Inside a bracket -/

/-- The event that a root was replaced by a whole number, if it was. -/
def snapEvents (x snapped : α) : List (Event α) :=
  if snapped == x then [] else [.snapped x snapped]

/-- A root within `tolerance` of a whole number is that number. -/
def snap (x tolerance : α) : Recorded α (Root α) :=
  ⟨snapEvents x (Scalar.snap x tolerance), .finite (Scalar.snap x tolerance)⟩

/-- The root in the bracket `[1, upper]`. -/
def inBracket (g : Characteristic α) (upper tolerance : α) : Recorded α (Root α) :=
  let found := Brent.search g.value 1.0 upper .standard
  match found.result with
  | .error _ => ⟨found.events, .infeasible⟩
  | .ok x => ⟨found.events ++ (snap x tolerance).events, (snap x tolerance).result⟩

/-- A search that starts with the search for a bracket. -/
def bracketed (bracket : Recorded α (Option α)) (search : α → Recorded α (Root α)) :
    Recorded α (Root α) :=
  match bracket.result with
  | none => ⟨bracket.events, .infeasible⟩
  | some upper =>
    ⟨bracket.events ++ .bracket 1.0 upper :: (search upper).events, (search upper).result⟩

/-- The search with its outcome as the last event. -/
def finish (search : Recorded α (Root α)) : Recorded α (Root α) :=
  ⟨search.events ++ [.finished search.result], search.result⟩

/-! ## With coefficients -/

/-- How near to a whole number a root of a recurrence has to be to be replaced by it. -/
def recurrenceTolerance : α :=
  1e-6

/-- The dominant root of a characteristic function. -/
def ofCharacteristic (g : Characteristic α) : Recorded α (Root α) :=
  if g.isEmpty then ⟨[], .finite 1.0⟩
  else if g.deltas.any fun d => decide (d ≤ 0.0) then ⟨[], .infeasible⟩
  else if Scalar.abs g.atOne ≤ cancellation then ⟨[], .finite 1.0⟩
  else if g.atOne < 0.0 then ⟨[], .infeasible⟩
  else bracketed (Bracket.byDoubling g) fun upper => inBracket g upper recurrenceTolerance

/-! ## From a remembered root -/

/-- How near to a whole number a root of given deltas has to be to be replaced by it. -/
def deltaTolerance : α :=
  1e-9

/-- By what factor Newton's method may overshoot the bracket. -/
def overshoot : α :=
  1.000001

/-- Whether a root that Newton's method found lies in the bracket. -/
def accepts (upper x : α) : Bool :=
  decide (1.0 ≤ x) && decide (x ≤ upper * overshoot)

/-- The root in the bracket `[1, upper]`, where one is expected at `guess`. -/
def fromGuess (g : Characteristic α) (upper guess : α) : Recorded α (Root α) :=
  let tried := Newton.search g.evaluate (Scalar.clamp guess 1.0 upper) .standard
  let cold := inBracket g upper deltaTolerance
  let reject (reason : String) : Recorded α (Root α) :=
    ⟨tried.events ++ .rejected reason :: cold.events, cold.result⟩
  match tried.result with
  | .error _ => reject "did not converge"
  | .ok x =>
    if accepts upper x then
      ⟨tried.events ++ (snap x deltaTolerance).events, (snap x deltaTolerance).result⟩
    else reject "converged outside bracket"

/-- The root in the bracket `[1, upper]`, with a guess or without; a guess that is not finite is
none. -/
def withGuess (g : Characteristic α) (guess : Option α) (upper : α) : Recorded α (Root α) :=
  match guess.filter fun x => Scalar.isFinite x with
  | none => inBracket g upper deltaTolerance
  | some x => fromGuess g upper x

/-- The root of `Σ r ^ (-d) = 1`. -/
def ofDeltas (deltas : List α) (guess : Option α) : Recorded α (Root α) :=
  let g := Characteristic.unit deltas
  match g.size, g.minDelta? with
  | 0, _ => ⟨[], .divergent⟩
  | _, none => ⟨[], .divergent⟩
  | 1, _ => ⟨[], .finite 1.0⟩
  | _, some minDelta =>
    if minDelta ≤ 0.0 then ⟨[], .infeasible⟩
    else bracketed (Bracket.fromBound g minDelta) (withGuess g guess)

end Search

/-! ## Dominant roots -/

/-- A recurrence that is not in one variable, for which there is no growth base. -/
structure UnsupportedInput where
  variableCount : Nat
  deriving DecidableEq, Repr

/-- The message about a recurrence that is not in one variable. -/
def UnsupportedInput.message (e : UnsupportedInput) : String :=
  "only single-variable recurrences are supported, got " ++ toString e.variableCount ++ " variables"

/-- The dominant root of a recurrence in one variable, with the events of the search. -/
def Recurrence.dominantRoot (r : Recurrence α) :
    Except UnsupportedInput (Recorded α (Root α)) :=
  if r.parameters.length = 1 then
    .ok (Search.finish (Search.ofCharacteristic (Characteristic.ofRecurrence r)))
  else .error ⟨r.parameters.length⟩

/-- The root of `Σ r ^ (-d) = 1` of at least 1, perhaps from a guess, with the events of the search:

* without deltas growth is unbounded,
* a single delta of any sign has the root 1,
* with several deltas, one of which is not positive, there is none. -/
def dominantRoot (deltas : List α) (guess : Option α) : Recorded α (Root α) :=
  Search.finish (Search.ofDeltas deltas guess)

end GrowthOrder
