import GrowthOrder.Scalar
import Mathlib.Algebra.Order.Floor.Ring
import Mathlib.Algebra.Order.Round
import Mathlib.Analysis.SpecialFunctions.Log.Basic
import Mathlib.Tactic.Linarith

/-!
# GrowthOrder.Proofs.Exact

Exact arithmetic.  The numbers of an ordered field, with any functions for the floor, `exp` and
`ln`, are a model of `Scalar` in which nothing is ever rounded or out of range.  Every search
procedure can be read over `Exact K`, and over `Exact ℝ` the powers are true powers.

`Exact K` is a structure around `K`, so that the operations of `Scalar` never compete with those of
the field; the `val_` lemmas take an expression over to the field.

An exponent is no number of the field.  It has 32 bits here as well, and a count of 32 bits or more
can come out as another exponent (`Scalar.toInt_toInt32_cases`).
-/

namespace GrowthOrder

/-- An exponential function and a logarithm, of which nothing is assumed. -/
class ExpLog (K : Type) where
  exp : K → K
  ln : K → K

/-- A rounding to whole numbers, of which nothing is assumed: an ordered field need not have one
that deserves the name. -/
class WholePart (K : Type) where
  floor : K → K

/-- Where there is a floor, it is the floor. -/
instance {K : Type} [Field K] [LinearOrder K] [FloorRing K] : WholePart K where
  floor x := (⌊x⌋ : ℤ)

noncomputable instance : ExpLog ℝ where
  exp := Real.exp
  ln := Real.log

/-- The tangents of `exp` at 0 and of `ln` at 1, with which every search computes in fractions. -/
instance : ExpLog ℚ where
  exp y := 1 + y
  ln x := x - 1

/-! ## Exponents -/

namespace Scalar

/-- A count is the exponent that it is cast to as long as it has 31 bits, and less otherwise. -/
theorem toInt_toInt32_cases (n : Nat) :
    (n < 2 ^ 31 ∧ n.toInt32.toInt = n) ∨ (2 ^ 31 ≤ n ∧ n.toInt32.toInt < n) := by
  by_cases h : n < 2 ^ 31
  · exact .inl ⟨h, Int32.toInt_ofNat_of_lt h⟩
  · have hlt := n.toInt32.toInt_lt
    exact .inr ⟨not_lt.1 h, by omega⟩

theorem toInt_toInt32_neg_iff (n : Nat) : n.toInt32.toInt < 0 ↔ 2 ^ 31 ≤ n % 2 ^ 32 := by
  have hsize : Int32.size = 2 ^ 32 := rfl
  rw [Nat.toInt32, Int32.toInt_ofNat', Int.bmod_def, hsize]
  split <;> omega

end Scalar

/-! ## Exact numbers -/

/-- A number that is computed with exactly. -/
@[ext]
structure Exact (K : Type) where
  val : K

instance {K : Type} [DecidableEq K] : DecidableEq (Exact K) :=
  fun _ _ => decidable_of_iff _ Exact.ext_iff.symm

namespace Exact

variable {K : Type} [Field K] [LinearOrder K] [WholePart K] [ExpLog K]

/-- Infinity has no exact counterpart.  A search sees it only left of zero, as the value and the
slope of a characteristic function there, and any positive number sends it elsewhere. -/
instance : Scalar (Exact K) where
  add x y := ⟨x.val + y.val⟩
  sub x y := ⟨x.val - y.val⟩
  mul x y := ⟨x.val * y.val⟩
  div x y := ⟨x.val / y.val⟩
  neg x := ⟨-x.val⟩
  lt x y := x.val < y.val
  le x y := x.val ≤ y.val
  beq x y := decide (x.val = y.val)
  ofScientific m s e := ⟨OfScientific.ofScientific m s e⟩
  decLt x y := inferInstanceAs (Decidable (x.val < y.val))
  decLe x y := inferInstanceAs (Decidable (x.val ≤ y.val))
  ofNat n := ⟨n⟩
  floor x := ⟨WholePart.floor x.val⟩
  exp x := ⟨ExpLog.exp x.val⟩
  ln x := ⟨ExpLog.ln x.val⟩
  infinity := ⟨1⟩
  isFinite _ := true
  isNaN _ := false
  isNegative x := decide (x.val < 0)

/-! ## Operations -/

@[simp]
theorem val_add (x y : Exact K) : (x + y).val = x.val + y.val :=
  rfl

@[simp]
theorem val_sub (x y : Exact K) : (x - y).val = x.val - y.val :=
  rfl

@[simp]
theorem val_mul (x y : Exact K) : (x * y).val = x.val * y.val :=
  rfl

@[simp]
theorem val_div (x y : Exact K) : (x / y).val = x.val / y.val :=
  rfl

@[simp]
theorem val_neg (x : Exact K) : (-x).val = -x.val :=
  rfl

@[simp]
theorem val_ofScientific (m : Nat) (s : Bool) (e : Nat) :
    (OfScientific.ofScientific m s e : Exact K).val = OfScientific.ofScientific m s e :=
  rfl

@[simp]
theorem val_ofNat (n : Nat) : (Scalar.ofNat n : Exact K).val = n :=
  rfl

@[simp]
theorem val_exp (x : Exact K) : (Scalar.exp x).val = ExpLog.exp x.val :=
  rfl

@[simp]
theorem val_ln (x : Exact K) : (Scalar.ln x).val = ExpLog.ln x.val :=
  rfl

@[simp]
theorem val_floor {K : Type} [Field K] [LinearOrder K] [FloorRing K] [ExpLog K] (x : Exact K) :
    (Scalar.floor x).val = (⌊x.val⌋ : ℤ) :=
  rfl

@[simp]
theorem val_infinity : (Scalar.infinity : Exact K).val = 1 :=
  rfl

/-! ## Comparisons -/

theorem lt_iff (x y : Exact K) : x < y ↔ x.val < y.val :=
  Iff.rfl

theorem le_iff (x y : Exact K) : x ≤ y ↔ x.val ≤ y.val :=
  Iff.rfl

@[simp]
theorem beq_iff (x y : Exact K) : (x == y) = true ↔ x.val = y.val :=
  decide_eq_true_iff

@[simp]
theorem isFinite_eq (x : Exact K) : Scalar.isFinite x = true :=
  rfl

@[simp]
theorem isNaN_eq (x : Exact K) : Scalar.isNaN x = false :=
  rfl

@[simp]
theorem isNegative_iff (x : Exact K) : Scalar.isNegative x = true ↔ x.val < 0 :=
  decide_eq_true_iff

/-! ## What is defined from the operations -/

@[simp]
theorem val_min (x y : Exact K) : (Scalar.min x y).val = min x.val y.val := by
  by_cases h : y.val < x.val
  · simp [Scalar.min, lt_iff, h, min_eq_right h.le]
  · simp [Scalar.min, lt_iff, h, min_eq_left (not_lt.1 h)]

@[simp]
theorem val_max (x y : Exact K) : (Scalar.max x y).val = max x.val y.val := by
  by_cases h : x.val < y.val
  · simp [Scalar.max, lt_iff, h, max_eq_right h.le]
  · simp [Scalar.max, lt_iff, h, max_eq_left (not_lt.1 h)]

@[simp]
theorem val_clamp (x low high : Exact K) :
    (Scalar.clamp x low high).val = min (max x.val low.val) high.val := by
  have hclamp : Scalar.clamp x low high = Scalar.min (Scalar.max x low) high := by
    simp [Scalar.clamp, Scalar.min, Scalar.max]
  rw [hclamp, val_min, val_max]

theorem val_powerFrom (fuel : Nat) (result base : Exact K) (n : Nat) (h : n < 2 ^ fuel) :
    (Scalar.powerFrom fuel result base n).val = result.val * base.val ^ n := by
  induction fuel generalizing result base n with
  | zero =>
      obtain rfl : n = 0 := by simpa using h
      simp [Scalar.powerFrom]
  | succ fuel ih =>
      have hhalf : n / 2 < 2 ^ fuel := by
        rw [pow_succ] at h
        omega
      have hfirst : (if n % 2 = 1 then result * base else result).val =
          result.val * base.val ^ (n % 2) := by
        obtain h | h := Nat.mod_two_eq_zero_or_one n <;> simp [h]
      rw [Scalar.powerFrom]
      split
      · rw [hfirst, Nat.mod_eq_of_lt (by omega)]
      · rw [ih _ _ _ hhalf, hfirst, val_mul, mul_assoc, ← pow_two, ← pow_mul, ← pow_add]
        congr 2
        omega

variable [IsStrictOrderedRing K]

/-- Repeated squaring gives the power. -/
@[simp]
theorem val_power (base : Exact K) (n : Nat) : (Scalar.power base n).val = base.val ^ n := by
  have hone : (1.0 : K) = 1 := by norm_num
  rw [Scalar.power, val_powerFrom _ _ _ _ Nat.lt_log2_self, val_ofScientific, hone, one_mul]

@[simp]
theorem val_zpower (base : Exact K) (n : Int32) :
    (Scalar.zpower base n).val = base.val ^ n.toInt := by
  have hone : (1.0 : K) = 1 := by norm_num
  rw [Scalar.zpower]
  split
  · next h =>
    rw [val_div, val_ofScientific, val_power, hone, one_div, ← zpow_natCast, ← zpow_neg,
      Int.ofNat_natAbs_of_nonpos h.le, neg_neg]
  · next h => rw [val_power, ← zpow_natCast, Int.natAbs_of_nonneg (not_lt.1 h)]

@[simp]
theorem val_abs (x : Exact K) : (Scalar.abs x).val = |x.val| := by
  by_cases h : x.val < 0
  · simp [Scalar.abs, h, abs_of_neg h]
  · simp [Scalar.abs, h, abs_of_nonneg (not_lt.1 h)]

/-- Nothing is nearer to zero than zero. -/
theorem not_abs_lt_of_isZero (x y : Exact K) (h : (x == (0.0 : Exact K)) = true) :
    ¬Scalar.abs y < Scalar.abs x := by
  have hzero : (0.0 : K) = 0 := by norm_num
  have hx : x.val = 0 := by simpa [hzero] using h
  simp [lt_iff, hx]

/-- A number is moved by no more than the tolerance. -/
theorem abs_snap_sub_le (x tolerance : Exact K) (h : 0 ≤ tolerance.val) :
    |(Scalar.snap x tolerance).val - x.val| ≤ tolerance.val := by
  by_cases hx : Scalar.abs (x - Scalar.round x) ≤ tolerance
  · have hmoved : |x.val - (Scalar.round x).val| ≤ tolerance.val := by
      simpa [le_iff] using hx
    have hzero : (0.0 : K) = 0 := by norm_num
    simpa [Scalar.snap, hx, hzero, abs_sub_comm] using hmoved
  · simpa [Scalar.snap, hx] using h

/-- Where there is a floor, a natural number is not moved. -/
theorem val_snap_natCast {K : Type} [Field K] [LinearOrder K] [IsStrictOrderedRing K] [FloorRing K]
    [ExpLog K] {x : Exact K} {n : Nat} (hx : x.val = n) (tolerance : Exact K)
    (h : 0 ≤ tolerance.val) : (Scalar.snap x tolerance).val = n := by
  have hzero : (0.0 : K) = 0 := by norm_num
  have hround : (Scalar.round x).val = n := by
    have hnonneg : ¬x < (0.0 : Exact K) := by
      rw [lt_iff, hx, val_ofScientific, hzero, not_lt]
      exact Nat.cast_nonneg n
    have hhalf : x - Scalar.floor x < (0.5 : Exact K) := by
      rw [lt_iff, val_sub, val_floor, hx]
      norm_num
    simp [Scalar.round, hnonneg, Scalar.roundUnsigned, hhalf, hx]
  have hnear : Scalar.abs (x - Scalar.round x) ≤ tolerance := by
    rw [le_iff, val_abs, val_sub, hround, hx, sub_self, abs_zero]
    exact h
  simp [Scalar.snap, hnear, hround, hzero]

/-! ## Roundings -/

section Roundings

variable {F : Type} [Field F] [LinearOrder F] [IsStrictOrderedRing F] [FloorRing F] [ExpLog F]

theorem exists_roundUnsigned (x : Exact F) :
    ∃ n : ℤ, (Scalar.roundUnsigned x).val = n ∧ |x.val - n| ≤ 1 / 2 := by
  have hfloor : (⌊x.val⌋ : F) ≤ x.val := Int.floor_le x.val
  have hnext : x.val < ⌊x.val⌋ + 1 := Int.lt_floor_add_one x.val
  have hhalf : x - Scalar.floor x < (0.5 : Exact F) ↔ x.val - ⌊x.val⌋ < 1 / 2 := by
    rw [lt_iff, val_sub, val_floor, val_ofScientific]
    norm_num
  have hone : (1.0 : F) = 1 := by norm_num
  rw [Scalar.roundUnsigned]
  split
  · next h =>
    have hbelow := hhalf.1 h
    exact ⟨⌊x.val⌋, rfl, abs_le.2 ⟨by linarith, by linarith⟩⟩
  · next h =>
    have habove := not_lt.1 fun hlt => h (hhalf.2 hlt)
    refine ⟨⌊x.val⌋ + 1, ?_, abs_le.2 ⟨?_, ?_⟩⟩
    · rw [val_add, val_floor, val_ofScientific, hone]
      push_cast
      rfl
    · push_cast
      linarith
    · push_cast
      linarith

/-- A number is rounded to a whole number at most a half away. -/
theorem exists_round (x : Exact F) :
    ∃ n : ℤ, (Scalar.round x).val = n ∧ |x.val - n| ≤ 1 / 2 := by
  rw [Scalar.round]
  split
  · obtain ⟨n, hn, hnear⟩ := exists_roundUnsigned (-x)
    refine ⟨-n, by rw [val_neg, hn, Int.cast_neg], ?_⟩
    rwa [val_neg, ← abs_neg, neg_sub, sub_neg_eq_add, add_comm, ← sub_neg_eq_add,
      ← Int.cast_neg] at hnear
  · exact exists_roundUnsigned x

@[simp]
theorem val_ceil (x : Exact F) : (Scalar.ceil x).val = (⌈x.val⌉ : ℤ) := by
  rw [Scalar.ceil, val_neg, val_floor, val_neg, Int.floor_neg, Int.cast_neg, neg_neg]

end Roundings

/-! ## Sums -/

omit [IsStrictOrderedRing K] in
/-- A sum from left to right is a sum. -/
theorem val_foldl_add {β : Type} (f : β → Exact K) (l : List β) (x : Exact K) :
    (l.foldl (fun sum b => sum + f b) x).val = x.val + (l.map fun b => (f b).val).sum := by
  induction l generalizing x with
  | nil => simp
  | cons b l ih => simp [ih, add_assoc]

end Exact

end GrowthOrder
