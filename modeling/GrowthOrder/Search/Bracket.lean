import GrowthOrder.Characteristic
import GrowthOrder.Search.Event

/-!
# GrowthOrder.Search.Bracket

Upper ends of a bracket `[1, b]` around the dominant root: some `b` with `g(b) ≤ 0`.

* `byDoubling` tries the powers of two up to `cap`, the least first.
* `fromBound` starts at a bound that holds where all coefficients are 1:
  `Σ x ^ (-d) ≤ m * x ^ (-min d)` for `m` powers, so `b = m ^ (1 / min d)` will do but for rounding.
  The bound gets some slack, and if it fails it is doubled, never beyond `cap`.
-/

namespace GrowthOrder.Bracket

variable {α : Type} [Scalar α]

/-- The greatest upper end that is considered. -/
def cap : α :=
  1e12

/-- The factor that makes up for rounding in the bound. -/
def slack : α :=
  1.01

/-- Whether a value shows that the root is not above. -/
def closes (value : α) : Bool :=
  Scalar.isFinite value && decide (value ≤ 0.0)

/-- The event of a probe at `b`. -/
def probe (g : Characteristic α) (b : α) : Event α :=
  .probe b (g.value b)

/-! ## Powers of two -/

/-- At most `remaining` probes, the first at `2 ^ k`. -/
def doublingFrom (g : Characteristic α) : Nat → Nat → Recorded α (Option α)
  | 0, _ => ⟨[], none⟩
  | remaining + 1, k =>
    let b := Scalar.power 2.0 k
    if cap < b then ⟨[], none⟩
    else if closes (g.value b) then ⟨[probe g b], some b⟩
    else
      let rest := doublingFrom g remaining (k + 1)
      ⟨probe g b :: rest.events, rest.result⟩

/-- The number of powers of two that may be tried. -/
def maxProbes : Nat :=
  50

/-- The least power of two, from 2 on, that closes a bracket. -/
def byDoubling (g : Characteristic α) : Recorded α (Option α) :=
  doublingFrom g maxProbes 1

/-! ## From a bound -/

/-- A probe at `b`, and then at most `remaining` more, each at the double of the last but never
beyond `cap`. -/
def stretchFrom (g : Characteristic α) : Nat → α → Recorded α (Option α)
  | 0, b => if closes (g.value b) then ⟨[probe g b], some b⟩ else ⟨[probe g b], none⟩
  | remaining + 1, b =>
    if closes (g.value b) then ⟨[probe g b], some b⟩
    else
      let rest := stretchFrom g remaining (Scalar.min (b * 2.0) cap)
      ⟨probe g b :: rest.events, rest.result⟩

/-- The number of times that a bound may be doubled. -/
def maxDoublings : Nat :=
  40

/-- The bound for `size` powers with least delta `minDelta`, computed by its logarithm. -/
def bound (size : Nat) (minDelta : α) : α :=
  let logarithm := Scalar.ln (Scalar.ofNat size) / minDelta
  if !Scalar.isFinite logarithm || decide (Scalar.ln (cap / slack : α) ≤ logarithm) then cap
  else Scalar.max (Scalar.exp logarithm * slack) 2.0

/-- The bound, or what it takes of doubling it, that closes a bracket. -/
def fromBound (g : Characteristic α) (minDelta : α) : Recorded α (Option α) :=
  stretchFrom g maxDoublings (bound g.size minDelta)

end GrowthOrder.Bracket
