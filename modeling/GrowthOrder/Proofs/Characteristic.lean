import GrowthOrder.Characteristic
import GrowthOrder.Proofs.Exact
import Mathlib.Analysis.SpecialFunctions.Pow.Continuity
import Mathlib.Algebra.Order.BigOperators.Group.List

/-!
# GrowthOrder.Proofs.Characteristic

The equation `Σ c * x ^ (-d) = 1` behind a characteristic function, over the reals.

In exact arithmetic `value` is the left side less one.  The equation has at most one positive
solution where the negative coefficients come first: there is some `t` with `d ≤ t` wherever `c` is
negative and `t ≤ d` wherever `c` is positive.  Then `Σ c * x ^ (t - d)` falls, while `x ^ t` rises.
-/

namespace GrowthOrder.Characteristic

/-! ## The sum of the powers -/

/-- The sum of the powers at a real number, `real` being what a number stands for. -/
noncomputable def sum {α : Type} (real : α → ℝ) (g : Characteristic α) (x : ℝ) : ℝ :=
  (g.powers.map fun p => real p.coefficient * x ^ (-real p.delta)).sum

variable {g : Characteristic (Exact ℝ)}

theorem val_atLog (p : Power (Exact ℝ)) {x : Exact ℝ} (hx : 0 < x.val) :
    (Power.atLog p (Scalar.ln x)).val = p.coefficient.val * x.val ^ (-p.delta.val) := by
  rw [Real.rpow_def_of_pos hx, mul_comm (Real.log x.val)]
  rfl

theorem val_sumAtLog (g : Characteristic (Exact ℝ)) {x : Exact ℝ} (hx : 0 < x.val) :
    (g.sumAtLog (Scalar.ln x)).val = g.sum Exact.val x.val := by
  unfold sumAtLog sum
  rw [Exact.val_foldl_add]
  norm_num [val_atLog _ hx]

theorem evaluate_of_pos (g : Characteristic (Exact ℝ)) {x : Exact ℝ} (hx : 0 < x.val) :
    g.evaluate x =
      (g.sumAtLog (Scalar.ln x) - 1.0, -g.weightedAtLog (Scalar.ln x) / x) := by
  have hzero : ¬x ≤ (0.0 : Exact ℝ) := by
    rw [Exact.le_iff]
    norm_num [hx]
  simp [evaluate, hzero]

/-- Right of zero the value is the sum of the powers less one. -/
theorem val_value (g : Characteristic (Exact ℝ)) {x : Exact ℝ} (hx : 0 < x.val) :
    (g.value x).val = g.sum Exact.val x.val - 1 := by
  unfold value
  rw [evaluate_of_pos g hx, Exact.val_sub, val_sumAtLog g hx]
  norm_num

theorem evaluate_of_nonpos (g : Characteristic (Exact ℝ)) {x : Exact ℝ} (hx : x.val ≤ 0) :
    g.evaluate x = (Scalar.infinity, Scalar.infinity) := by
  have hzero : x ≤ (0.0 : Exact ℝ) := by
    rw [Exact.le_iff]
    norm_num [hx]
  simp [evaluate, hzero]

/-- Elsewhere the value is positive. -/
theorem val_value_of_nonpos (g : Characteristic (Exact ℝ)) {x : Exact ℝ} (hx : x.val ≤ 0) :
    (g.value x).val = 1 := by
  simp [value, evaluate_of_nonpos g hx]

theorem val_atOne (g : Characteristic (Exact ℝ)) : g.atOne.val = g.sum Exact.val 1 - 1 := by
  have hsum := Exact.val_foldl_add id g.coefficients 0.0
  simp only [id_eq] at hsum
  rw [atOne, Exact.val_sub, hsum]
  norm_num [sum, coefficients, Function.comp_def]

theorem continuousOn_sum {α : Type} (real : α → ℝ) (g : Characteristic α) :
    ContinuousOn (g.sum real) (Set.Ioi 0) := by
  unfold sum
  induction g.powers with
  | nil => simpa using continuousOn_const
  | cons p ps ih =>
      simp only [List.map_cons, List.sum_cons]
      refine ContinuousOn.add (continuousOn_const.mul ?_) ih
      intro x hx
      exact (Real.continuousAt_rpow_const x _ (.inl (ne_of_gt hx))).continuousWithinAt

/-- Far out the powers are small. -/
theorem sum_le (g : Characteristic (Exact ℝ)) {low x : ℝ} (hx : 1 ≤ x)
    (hdelay : ∀ p ∈ g.powers, low ≤ p.delta.val) :
    g.sum Exact.val x ≤ (g.powers.map fun p => |p.coefficient.val|).sum * x ^ (-low) := by
  unfold sum
  rw [← List.sum_map_mul_right]
  apply List.sum_le_sum
  intro p hp
  have hpow : x ^ (-p.delta.val) ≤ x ^ (-low) :=
    Real.rpow_le_rpow_of_exponent_le hx (neg_le_neg (hdelay p hp))
  have hnonneg : 0 ≤ x ^ (-p.delta.val) := Real.rpow_nonneg (zero_le_one.trans hx) _
  calc p.coefficient.val * x ^ (-p.delta.val)
      ≤ |p.coefficient.val| * x ^ (-p.delta.val) :=
        mul_le_mul_of_nonneg_right (le_abs_self _) hnonneg
    _ ≤ |p.coefficient.val| * x ^ (-low) := mul_le_mul_of_nonneg_left hpow (abs_nonneg _)

/-- A sum of at least 1 at 1 comes down to 1 somewhere. -/
theorem exists_solution {low : ℝ} (hlow : 0 < low) (hdelay : ∀ p ∈ g.powers, low ≤ p.delta.val)
    (hone : 1 ≤ g.sum Exact.val 1) : ∃ x, 1 ≤ x ∧ g.sum Exact.val x = 1 := by
  have hnonneg : 0 ≤ (g.powers.map fun p => |p.coefficient.val|).sum := by
    apply List.sum_nonneg
    simp
  set total := (g.powers.map fun p => |p.coefficient.val|).sum
  -- where `x ^ low` is more than the total of the coefficients
  have hfar : 1 ≤ (1 + total) ^ low⁻¹ :=
    Real.one_le_rpow (by linarith) (inv_nonneg.2 hlow.le)
  have hsum : g.sum Exact.val ((1 + total) ^ low⁻¹) ≤ 1 := by
    have hle := sum_le g hfar hdelay
    rw [← Real.rpow_mul (by linarith), mul_neg, inv_mul_cancel₀ hlow.ne', Real.rpow_neg_one] at hle
    refine hle.trans ?_
    rw [← div_eq_mul_inv, div_le_one (by linarith)]
    linarith
  have hcontinuous : ContinuousOn (g.sum Exact.val) (Set.Icc 1 ((1 + total) ^ low⁻¹)) :=
    (continuousOn_sum Exact.val g).mono fun x hx => one_pos.trans_le hx.1
  obtain ⟨x, hx, hsolution⟩ := intermediate_value_Icc' hfar hcontinuous ⟨hsum, hone⟩
  exact ⟨x, hx.1, hsolution⟩

/-! ## One solution -/

/-- The powers with a negative coefficient look back by at most `t`, those with a positive one by at
least `t`. -/
structure SplitAt (g : Characteristic (Exact ℝ)) (t : ℝ) : Prop where
  pos : 0 < t
  negative : ∀ p ∈ g.powers, p.coefficient.val < 0 → p.delta.val ≤ t
  positive : ∀ p ∈ g.powers, 0 < p.coefficient.val → t ≤ p.delta.val

theorem rpow_mul_sum (g : Characteristic (Exact ℝ)) (t : ℝ) {x : ℝ} (hx : 0 < x) :
    x ^ t * g.sum Exact.val x =
      (g.powers.map fun p => p.coefficient.val * x ^ (t - p.delta.val)).sum := by
  unfold sum
  rw [← List.sum_map_mul_left]
  congr 1
  apply List.map_congr_left
  intro p _
  rw [sub_eq_add_neg, Real.rpow_add hx]
  ring

/-- Times `x ^ t` the sum falls. -/
theorem SplitAt.rpow_mul_sum_anti {t : ℝ} (h : g.SplitAt t) {x y : ℝ} (hx : 0 < x) (hxy : x ≤ y) :
    y ^ t * g.sum Exact.val y ≤ x ^ t * g.sum Exact.val x := by
  have hy : 0 < y := hx.trans_le hxy
  rw [rpow_mul_sum g t hy, rpow_mul_sum g t hx]
  apply List.sum_le_sum
  intro p hp
  obtain hneg | hzero | hpos := lt_trichotomy p.coefficient.val 0
  · have hexp : 0 ≤ t - p.delta.val := sub_nonneg.2 (h.negative p hp hneg)
    exact mul_le_mul_of_nonpos_left (Real.rpow_le_rpow hx.le hxy hexp) hneg.le
  · simp [hzero]
  · have hexp : t - p.delta.val ≤ 0 := sub_nonpos.2 (h.positive p hp hpos)
    exact mul_le_mul_of_nonneg_left (Real.rpow_le_rpow_of_nonpos hx hxy hexp) hpos.le

/-- **The sum crosses 1 once**: left of a point where it is at least 1 it is greater. -/
theorem SplitAt.one_lt_sum {t : ℝ} (h : g.SplitAt t) {x y : ℝ} (hx : 0 < x) (hxy : x < y)
    (hy : 1 ≤ g.sum Exact.val y) : 1 < g.sum Exact.val x := by
  have hpow : 0 < x ^ t := Real.rpow_pos_of_pos hx t
  have hrise : x ^ t < y ^ t := Real.rpow_lt_rpow hx.le hxy h.pos
  have hfall := h.rpow_mul_sum_anti hx hxy.le
  have hlow : y ^ t ≤ y ^ t * g.sum Exact.val y :=
    le_mul_of_one_le_right (hpow.trans hrise).le hy
  have hlt : x ^ t * 1 < x ^ t * g.sum Exact.val x := by linarith
  exact lt_of_mul_lt_mul_left hlt hpow.le

/-! ## All coefficients 1 -/

theorem sum_unit (deltas : List (Exact ℝ)) (x : ℝ) :
    (unit deltas).sum Exact.val x = (deltas.map fun d => x ^ (-d.val)).sum := by
  have hone : (1.0 : ℝ) = 1 := by norm_num
  simp [sum, unit, Function.comp_def, hone]

theorem splitAt_unit {deltas : List (Exact ℝ)} {low : ℝ} (hlow : 0 < low)
    (h : ∀ d ∈ deltas, low ≤ d.val) : (unit deltas).SplitAt low := by
  refine ⟨hlow, ?_, ?_⟩
  · norm_num [unit]
  · norm_num [unit]
    exact h

/-- The slope, where all coefficients are 1. -/
theorem val_slope_unit (deltas : List (Exact ℝ)) {x : Exact ℝ} (hx : 0 < x.val) :
    ((unit deltas).evaluate x).2.val =
      -(deltas.map fun d => d.val * x.val ^ (-d.val)).sum / x.val := by
  have hone : (1.0 : ℝ) = 1 := by norm_num
  have hzero : (0.0 : ℝ) = 0 := by norm_num
  rw [evaluate_of_pos _ hx, Exact.val_div, Exact.val_neg, weightedAtLog, Exact.val_foldl_add]
  simp [unit, Function.comp_def, val_atLog _ hx, hone, hzero]

end GrowthOrder.Characteristic
