import GrowthOrder.Binary64

/-!
# GrowthOrder.Scalar

The arithmetic that the search for a growth base runs on.  `Scalar α` asks for the four
operations, the comparisons as the search makes them, decimal literals, the floor, `exp` and `ln`.
The running program uses `Float`; an ordered field with any `exp` and `ln` is another model, and
every search procedure is written once for both.

Comparisons follow the number type: on `Float` nothing is less than or equal to a NaN, and
`-0.0 == 0.0`.  `min`, `max`, `clamp` and the two roundings are defined here from the class, so that
what they do with a NaN or a signed zero can be read off their definitions.
-/

namespace GrowthOrder

/-- Numbers to search with: arithmetic, comparisons, decimal literals, floor, `exp` and `ln`. -/
class Scalar (α : Type) extends Add α, Sub α, Mul α, Div α, Neg α, LT α, LE α, BEq α,
    OfScientific α where
  decLt : DecidableLT α
  decLe : DecidableLE α
  /-- The number nearest to a natural number. -/
  ofNat : Nat → α
  /-- The greatest whole number that is not above. -/
  floor : α → α
  /-- The exponential function. -/
  exp : α → α
  /-- The natural logarithm. -/
  ln : α → α
  /-- What stands for a value too large to be one. -/
  infinity : α
  /-- Neither an infinity nor a NaN. -/
  isFinite : α → Bool
  /-- Not a number at all. -/
  isNaN : α → Bool
  /-- The sign, which a zero has too. -/
  isNegative : α → Bool

instance Scalar.decidableLT {α : Type} [Scalar α] (x y : α) : Decidable (x < y) :=
  Scalar.decLt x y

instance Scalar.decidableLE {α : Type} [Scalar α] (x y : α) : Decidable (x ≤ y) :=
  Scalar.decLe x y

instance : Scalar Float where
  decLt := inferInstance
  decLe := inferInstance
  ofNat := Float.ofNat
  floor := Binary64.floor
  exp := Float.exp
  ln := Float.log
  infinity := Binary64.infinity
  isFinite := Float.isFinite
  isNaN := Float.isNaN
  isNegative := Binary64.isNegative

namespace Scalar

variable {α : Type} [Scalar α]

/-! ## Sign and order -/

/-- The number without its sign. -/
def abs (x : α) : α :=
  if isNegative x then -x else x

/-- The lesser of two numbers; a NaN is passed over, and of equals the first stays. -/
def min (x y : α) : α :=
  if isNaN x || decide (y < x) then y else x

/-- The greater of two numbers; a NaN is passed over, and of equals the first stays. -/
def max (x y : α) : α :=
  if isNaN x || decide (x < y) then y else x

/-- The nearest number to `x` in `[low, high]`; a NaN stays. -/
def clamp (x low high : α) : α :=
  let y := if x < low then low else x
  if high < y then high else y

/-- The nearest number to `x` in `[low, high]`; refused where these are not in order. -/
def clamp? (x low high : α) : Option α :=
  if low ≤ high then some (clamp x low high) else none

/-! ## Rounding to whole numbers -/

/-- The least whole number that is not below. -/
def ceil (x : α) : α :=
  -floor (-x)

/-- The nearest whole number, where `x` is not negative; a half goes up. -/
def roundUnsigned (x : α) : α :=
  let below := floor x
  if x - below < 0.5 then below else below + 1.0

/-- The nearest whole number; a half goes away from zero. -/
def round (x : α) : α :=
  if x < 0.0 then -roundUnsigned (-x) else roundUnsigned x

/-- The nearest whole number, where `x` is within `tolerance` of it; `x` itself otherwise, and where
it is not finite. -/
def snap (x tolerance : α) : α :=
  if !isFinite x then x
  else if abs (x - round x) ≤ tolerance then round x + 0.0
  else x

/-! ## Powers -/

/-- One square-and-multiply pass: `result * base ^ n`, from the lowest binary digit of `n` on.
The first argument bounds the number of digits. -/
def powerFrom : Nat → α → α → Nat → α
  | 0, result, _, _ => result
  | fuel + 1, result, base, n =>
    let result := if n % 2 = 1 then result * base else result
    if n / 2 = 0 then result else powerFrom fuel result (base * base) (n / 2)

/-- `base ^ n` by repeated squaring, the multiplications in the order of the binary digits. -/
def power (base : α) (n : Nat) : α :=
  powerFrom (n.log2 + 1) 1.0 base n

/-- `base ^ n` for an exponent of 32 bits; one that is negative inverts the power at the end. -/
def zpower (base : α) (n : Int32) : α :=
  if n.toInt < 0 then 1.0 / power base n.toInt.natAbs else power base n.toInt.natAbs

/-! ## Constants -/

/-- The gap between 1 and the next binary64 number, `2 ^ -52`. -/
def epsilon : α :=
  1.0 / 4503599627370496.0

end Scalar

end GrowthOrder
