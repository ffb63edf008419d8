import GrowthOrder.Decimal.Numeral
import GrowthOrder.Proofs.Exact

/-!
# GrowthOrder.Proofs.SignedZero

Exact arithmetic with the two zeros of floating point.  A `Signed` number is an exact fraction whose
zero has a sign too, as finite numbers have it on the machine: a result that is not zero has the
sign of its value, and a zero the sign that its operands give it.

The signs of zeros never reach a value, so that whatever is computed from the operations of
`Signed` has the value that it has over `Exact ℚ`; the `exact_` lemmas take an expression over.
-/

namespace GrowthOrder

/-- A number that is computed with exactly, and whose zero has a sign. -/
structure Signed where
  exact : Exact ℚ
  negative : Bool
  negative_of_neg : exact.val < 0 → negative = true
  negative_of_pos : 0 < exact.val → negative = false

namespace Signed

/-- A number with the sign of its value, and with the given sign if it is zero. -/
def of (exact : Exact ℚ) (zero : Bool) : Signed where
  exact := exact
  negative := if exact.val = 0 then zero else decide (exact.val < 0)
  negative_of_neg h := by rw [if_neg h.ne, decide_eq_true h]
  negative_of_pos h := by rw [if_neg h.ne', decide_eq_false h.le.not_gt]

/-- The value without the sign of a zero. -/
def val (x : Signed) : ℚ :=
  x.exact.val

instance : Scalar Signed where
  add x y := of (x.exact + y.exact) (x.negative && y.negative)
  sub x y := of (x.exact - y.exact) (x.negative && !y.negative)
  mul x y := of (x.exact * y.exact) (x.negative ^^ y.negative)
  div x y := of (x.exact / y.exact) (x.negative ^^ y.negative)
  neg x := of (-x.exact) (!x.negative)
  lt x y := x.exact < y.exact
  le x y := x.exact ≤ y.exact
  beq x y := x.exact == y.exact
  ofScientific m s e := of (OfScientific.ofScientific m s e) false
  decLt x y := inferInstanceAs (Decidable (x.exact < y.exact))
  decLe x y := inferInstanceAs (Decidable (x.exact ≤ y.exact))
  ofNat n := of (Scalar.ofNat n) false
  floor x := of (Scalar.floor x.exact) x.negative
  exp x := of (Scalar.exp x.exact) false
  ln x := of (Scalar.ln x.exact) false
  infinity := of Scalar.infinity false
  isFinite _ := true
  isNaN _ := false
  isNegative x := x.negative

instance : Written Signed where
  numeral x := .finite x.negative |x.val|

/-! ## Operations -/

theorem negative_of (x : Exact ℚ) (zero : Bool) :
    (of x zero).negative = if x.val = 0 then zero else decide (x.val < 0) :=
  rfl

@[simp]
theorem exact_add (x y : Signed) : (x + y).exact = x.exact + y.exact :=
  rfl

@[simp]
theorem exact_sub (x y : Signed) : (x - y).exact = x.exact - y.exact :=
  rfl

@[simp]
theorem exact_mul (x y : Signed) : (x * y).exact = x.exact * y.exact :=
  rfl

@[simp]
theorem exact_div (x y : Signed) : (x / y).exact = x.exact / y.exact :=
  rfl

@[simp]
theorem exact_neg (x : Signed) : (-x).exact = -x.exact :=
  rfl

@[simp]
theorem exact_ofScientific (m : Nat) (s : Bool) (e : Nat) :
    (OfScientific.ofScientific m s e : Signed).exact = OfScientific.ofScientific m s e :=
  rfl

theorem le_iff (x y : Signed) : x ≤ y ↔ x.exact ≤ y.exact :=
  Iff.rfl

theorem negative_add (x y : Signed) :
    (x + y).negative = (of (x.exact + y.exact) (x.negative && y.negative)).negative :=
  rfl

theorem val_add_zero (x : Signed) : (x + 0.0).val = x.val := by
  have hzero : (0.0 : ℚ) = 0 := by norm_num
  rw [val, exact_add, Exact.val_add, exact_ofScientific, Exact.val_ofScientific, hzero, add_zero,
    val]

/-- Adding zero clears the sign of a zero. -/
theorem negative_add_zero (x : Signed) : (x + 0.0).negative = decide (x.val < 0) := by
  have hsum : (x.exact + (0.0 : Signed).exact).val = x.val := val_add_zero x
  have hsign : (0.0 : Signed).negative = false := if_pos (by norm_num [exact_ofScientific])
  rw [negative_add, negative_of, hsum, hsign, Bool.and_false]
  split
  · next h => rw [h, decide_eq_false (lt_irrefl 0)]
  · rfl

/-- With zero added, a number is written down with the sign of its value. -/
theorem numeral_add_zero (x : Signed) :
    Written.numeral (x + 0.0) = .finite (decide (x.val < 0)) |x.val| := by
  rw [← negative_add_zero, ← val_add_zero]
  rfl

/-! ## What is defined from the operations -/

@[simp]
theorem exact_abs (x : Signed) : (Scalar.abs x).exact = Scalar.abs x.exact := by
  ext
  rw [Exact.val_abs, Scalar.abs]
  change (if x.negative then -x else x).exact.val = _
  split
  · next h =>
    have hle := not_lt.1 fun hpos => Bool.noConfusion (h.symm.trans (x.negative_of_pos hpos))
    rw [exact_neg, Exact.val_neg, abs_of_nonpos hle]
  · next h => rw [abs_of_nonneg (not_lt.1 fun hneg => h (x.negative_of_neg hneg))]

@[simp]
theorem exact_ceil (x : Signed) : (Scalar.ceil x).exact = Scalar.ceil x.exact :=
  rfl

@[simp]
theorem exact_roundUnsigned (x : Signed) :
    (Scalar.roundUnsigned x).exact = Scalar.roundUnsigned x.exact := by
  rw [Scalar.roundUnsigned, apply_ite exact]
  rfl

@[simp]
theorem exact_round (x : Signed) : (Scalar.round x).exact = Scalar.round x.exact := by
  rw [Scalar.round, apply_ite exact, exact_neg, exact_roundUnsigned, exact_roundUnsigned]
  rfl

theorem exact_powerFrom (fuel : Nat) (result base : Signed) (n : Nat) :
    (Scalar.powerFrom fuel result base n).exact =
      Scalar.powerFrom fuel result.exact base.exact n := by
  induction fuel generalizing result base n with
  | zero => rfl
  | succ fuel ih =>
      simp only [Scalar.powerFrom, apply_ite exact, ih, exact_mul]

@[simp]
theorem exact_power (base : Signed) (n : Nat) :
    (Scalar.power base n).exact = Scalar.power base.exact n :=
  exact_powerFrom _ _ _ _

@[simp]
theorem exact_zpower (base : Signed) (n : Int32) :
    (Scalar.zpower base n).exact = Scalar.zpower base.exact n := by
  rw [Scalar.zpower, apply_ite exact, exact_div, exact_power, exact_ofScientific]
  rfl

end Signed

end GrowthOrder
