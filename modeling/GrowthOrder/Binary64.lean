/-!
# GrowthOrder.Binary64

The parts of a binary64 number: sign, exponent and fraction, read from its 64 bits, and the exact
value that they stand for.  A finite number is `± mantissa * 2 ^ exponent`.

* `magnitude` is the exact absolute value, a rational number;
* `floor` is computed through `magnitude`, hence exact.
-/

namespace GrowthOrder.Binary64

/-! ## Fields -/

/-- Whether the sign bit is set, as it is in `-0.0`. -/
def isNegative (x : Float) : Bool :=
  x.toBits.toNat / Nat.pow 2 63 == 1

/-- The eleven exponent bits. -/
def exponentField (x : Float) : Nat :=
  x.toBits.toNat / Nat.pow 2 52 % Nat.pow 2 11

/-- The fifty-two fraction bits. -/
def fraction (x : Float) : Nat :=
  x.toBits.toNat % Nat.pow 2 52

/-- The whole number that a finite number scales by a power of two. -/
def mantissa (x : Float) : Nat :=
  if exponentField x = 0 then fraction x else Nat.pow 2 52 + fraction x

/-- The power of two by which a finite number scales its mantissa. -/
def exponent (x : Float) : Int :=
  if exponentField x = 0 then -1074 else (exponentField x : Int) - 1075

/-! ## Value -/

/-- The exact absolute value of a finite number. -/
def magnitude (x : Float) : Rat :=
  (mantissa x : Rat) * (2 : Rat) ^ exponent x

/-- Positive infinity. -/
def infinity : Float :=
  Float.ofBits 0x7FF0000000000000

/-! ## Whole numbers -/

/-- The greatest whole number that is not above `x`.  From `2 ^ 52` on every number is whole. -/
def floor (x : Float) : Float :=
  if x.isFinite && decide (x.abs < 4503599627370496.0) then
    let whole := Float.ofNat (magnitude x).floor.toNat
    if whole == x.abs then x
    else if isNegative x then -whole - 1.0
    else whole
  else x

end GrowthOrder.Binary64
