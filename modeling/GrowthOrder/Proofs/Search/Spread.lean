import GrowthOrder.Proofs.Search.WarmStart

/-!
# GrowthOrder.Proofs.Search.Spread

Deltas for which every hint is advisory, in exact arithmetic.

Newton's method stops for a short step.  How far from the root that may be depends on how much the
slope varies between the two, and the slope is to the sum of the powers as the deltas are: if the
deltas lie within a factor of 32, a step within the tolerance leaves less than `1e-6` to the root.
-/

namespace GrowthOrder

open Characteristic Search

namespace Characteristic

variable {deltas : List (Exact ℝ)} {low high : ℝ}

/-! ## Where Newton's method stops -/

theorem sum_unit_pos (hne : deltas ≠ []) {x : ℝ} (hx : 0 < x) :
    0 < (unit deltas).sum Exact.val x := by
  rw [sum_unit]
  apply List.sum_pos
  · simp [Real.rpow_pos_of_pos hx]
  · simpa using hne

/-- The slope is to the sum as the deltas are. -/
theorem le_sum_weighted (h : ∀ d ∈ deltas, low ≤ d.val) {x : ℝ} (hx : 0 < x) :
    low * (unit deltas).sum Exact.val x ≤ (deltas.map fun d => d.val * x ^ (-d.val)).sum := by
  rw [sum_unit, ← List.sum_map_mul_left]
  apply List.sum_le_sum
  intro d hd
  exact mul_le_mul_of_nonneg_right (h d hd) (Real.rpow_nonneg hx.le _)

theorem sum_weighted_le (h : ∀ d ∈ deltas, d.val ≤ high) {x : ℝ} (hx : 0 < x) :
    (deltas.map fun d => d.val * x ^ (-d.val)).sum ≤ high * (unit deltas).sum Exact.val x := by
  rw [sum_unit, ← List.sum_map_mul_left]
  apply List.sum_le_sum
  intro d hd
  exact mul_le_mul_of_nonneg_right (h d hd) (Real.rpow_nonneg hx.le _)

/-- The tolerance of Newton's method. -/
theorem val_newton_tolerance :
    (Newton.Options.standard : Newton.Options (Exact ℝ)).tolerance.val = 1.48e-8 :=
  rfl

/-- Where Newton's method stops, it does so next to a point where the sum is almost 1: the step from
there was short, and the slope there is at most `high` times the sum. -/
theorem exists_of_reached (hne : deltas ≠ []) (hlow : 0 < low)
    (h : ∀ d ∈ deltas, low ≤ d.val ∧ d.val ≤ high) {x : Exact ℝ} (hx : 1 ≤ x.val)
    (hreached : Newton.Reached (unit deltas).evaluate .standard x) :
    ∃ p : ℝ, 0 < p ∧ |x.val - p| ≤ 1.48e-8 ∧
      |(unit deltas).sum Exact.val p - 1| * p ≤ 1.48e-8 * high * (unit deltas).sum Exact.val p := by
  have hhigh : 0 < high := by
    obtain ⟨d, hd⟩ := List.exists_mem_of_ne_nil deltas hne
    exact hlow.trans_le ((h d hd).1.trans (h d hd).2)
  obtain hzero | ⟨p, hstep, hshort⟩ := hreached
  · have hpos : 0 < x.val := one_pos.trans_le hx
    have hvalue : ((unit deltas).value x).val = 0 := by
      have := (Exact.beq_iff _ _).1 hzero
      norm_num at this
      exact this
    rw [val_value _ hpos] at hvalue
    refine ⟨x.val, hpos, by norm_num, ?_⟩
    rw [hvalue, abs_zero, zero_mul]
    have := sum_unit_pos hne hpos
    positivity
  · rw [Exact.lt_iff, Exact.val_abs, Exact.val_sub, val_newton_tolerance] at hshort
    by_cases hpos : 0 < p.val
    · refine ⟨p.val, hpos, hshort.le, ?_⟩
      have hsum := sum_unit_pos hne hpos
      have hleast := le_sum_weighted (fun d hd => (h d hd).1) hpos
      have hmost := sum_weighted_le (fun d hd => (h d hd).2) hpos
      have hslope := val_slope_unit deltas hpos
      have hvalue : ((unit deltas).evaluate p).1.val = (unit deltas).sum Exact.val p.val - 1 :=
        val_value _ hpos
      rw [hstep, Exact.val_sub, Exact.val_div, hslope, hvalue] at hshort
      generalize (unit deltas).sum Exact.val p.val = sum at *
      generalize (deltas.map fun d => d.val * p.val ^ (-d.val)).sum = weighted at *
      have hweighted : 0 < weighted := (mul_pos hlow hsum).trans_le hleast
      have hmove : p.val - (sum - 1) / (-weighted / p.val) - p.val =
          (sum - 1) * p.val / weighted := by
        field_simp
        ring
      rw [hmove, abs_div, abs_mul, abs_of_pos hweighted, abs_of_pos hpos,
        div_lt_iff₀ hweighted] at hshort
      have : 1.48e-8 * weighted ≤ 1.48e-8 * (high * sum) := by gcongr
      linarith
    · -- left of zero a step has length 1
      rw [hstep, evaluate_of_nonpos _ (not_lt.1 hpos)] at hshort
      norm_num at hshort

/-! ## How far the root is from there -/

/-- The distance of two numbers, by their logarithms. -/
theorem sub_le_mul_log_sub {u v : ℝ} (hu : 0 < u) (hv : 0 < v) :
    v - u ≤ v * (Real.log v - Real.log u) := by
  have hlog := Real.one_sub_inv_le_log_of_pos (div_pos hv hu)
  rw [inv_div, Real.log_div hv.ne' hu.ne'] at hlog
  calc v - u = v * (1 - u / v) := by field_simp
    _ ≤ v * (Real.log v - Real.log u) := mul_le_mul_of_nonneg_left hlog hv.le

/-- The logarithm of a number of almost 1. -/
theorem abs_log_le {y q : ℝ} (hq : 0 ≤ q) (hq' : q ≤ 1 / 5) (hy : |y - 1| ≤ q * y) :
    |Real.log y| ≤ 5 / 4 * q := by
  have hbounds := abs_le.1 hy
  have hpos : 0 < y := by nlinarith
  rw [abs_le]
  constructor
  · have hlog := Real.one_sub_inv_le_log_of_pos hpos
    have hinv : y⁻¹ ≤ 1 + q := by
      rw [inv_le_iff_one_le_mul₀ hpos]
      linarith
    linarith
  · have hlog := Real.log_le_sub_one_of_pos hpos
    have hle : y ≤ 5 / 4 := by nlinarith
    nlinarith

/-- Where the sum is almost 1, the solution is near. -/
theorem SplitAt.abs_log_sub_le {g : Characteristic (Exact ℝ)} {t : ℝ} (h : g.SplitAt t)
    {p ρ q : ℝ} (hp : 0 < p) (hρ : 0 < ρ) (hsolution : g.sum Exact.val ρ = 1) (hq : 0 ≤ q)
    (hq' : q ≤ 1 / 5) (hnear : |g.sum Exact.val p - 1| ≤ q * g.sum Exact.val p) :
    t * |Real.log ρ - Real.log p| ≤ 5 / 4 * q := by
  have hlog := abs_le.1 (abs_log_le hq hq' hnear)
  have hsum : 0 < g.sum Exact.val p := by nlinarith [abs_le.1 hnear]
  have hpow : 0 < p ^ t := Real.rpow_pos_of_pos hp t
  have hscaled : Real.log (p ^ t * g.sum Exact.val p) =
      t * Real.log p + Real.log (g.sum Exact.val p) := by
    rw [Real.log_mul hpow.ne' hsum.ne', Real.log_rpow hp]
  obtain hle | hle := le_total p ρ
  · have hfall := h.rpow_mul_sum_anti hp hle
    rw [hsolution, mul_one] at hfall
    have := Real.log_le_log (Real.rpow_pos_of_pos hρ t) hfall
    rw [hscaled, Real.log_rpow hρ] at this
    rw [abs_of_nonneg (sub_nonneg.2 (Real.log_le_log hp hle))]
    linarith
  · have hfall := h.rpow_mul_sum_anti hρ hle
    rw [hsolution, mul_one] at hfall
    have := Real.log_le_log (mul_pos hpow hsum) hfall
    rw [hscaled, Real.log_rpow hρ] at this
    rw [abs_of_nonpos (sub_nonpos.2 (Real.log_le_log hρ hle))]
    linarith

/-- Where Newton's method stops, the root is near. -/
theorem abs_sub_le_of_reached (hne : deltas ≠ []) (hlow : 0 < low)
    (h : ∀ d ∈ deltas, low ≤ d.val ∧ d.val ≤ high) (hspread : high ≤ 32 * low) (hhigh : high ≤ 1e7)
    {x : Exact ℝ} (hx : 1 ≤ x.val)
    (hreached : Newton.Reached (unit deltas).evaluate .standard x) {ρ : ℝ} (hρ : 0 < ρ)
    (hsolution : (unit deltas).sum Exact.val ρ = 1) : |x.val - ρ| ≤ 7e-7 := by
  obtain ⟨p, hp, hstep, hnear⟩ := exists_of_reached hne hlow h hx hreached
  have hpx := abs_le.1 hstep
  have hp' : 9 / 10 ≤ p := by
    norm_num at hpx
    linarith
  have hratio : 0 ≤ 1.48e-8 * high / p ∧ 1.48e-8 * high / p ≤ 1 / 5 := by
    obtain ⟨d, hd⟩ := List.exists_mem_of_ne_nil deltas hne
    have hpos : 0 < high := hlow.trans_le ((h d hd).1.trans (h d hd).2)
    refine ⟨by positivity, ?_⟩
    rw [div_le_iff₀ hp]
    norm_num at hhigh ⊢
    linarith
  have hnear' : |(unit deltas).sum Exact.val p - 1| ≤
      1.48e-8 * high / p * (unit deltas).sum Exact.val p := by
    rwa [div_mul_eq_mul_div, le_div_iff₀ hp]
  have hlog := (splitAt_unit hlow fun d hd => (h d hd).1).abs_log_sub_le hp hρ hsolution
    hratio.1 hratio.2 hnear'
  -- the logarithms are as near as the factor between the deltas allows
  have hfactor : |Real.log ρ - Real.log p| * p ≤ 5.92e-7 := by
    refine le_of_mul_le_mul_left ?_ hlow
    calc low * (|Real.log ρ - Real.log p| * p)
        = low * |Real.log ρ - Real.log p| * p := by ring
      _ ≤ 5 / 4 * (1.48e-8 * high / p) * p := mul_le_mul_of_nonneg_right hlog hp.le
      _ = 5 / 4 * 1.48e-8 * high := by field_simp
      _ ≤ low * 5.92e-7 := by
        norm_num
        linarith
  have hdistance : |p - ρ| ≤ 6e-7 := by
    obtain hle | hle := le_total p ρ
    · have hmove := sub_le_mul_log_sub hp hρ
      rw [abs_of_nonneg (sub_nonneg.2 (Real.log_le_log hp hle))] at hfactor
      rw [abs_of_nonpos (sub_nonpos.2 hle)]
      norm_num at hfactor ⊢
      nlinarith
    · have hmove := sub_le_mul_log_sub hρ hp
      rw [abs_of_nonpos (sub_nonpos.2 (Real.log_le_log hρ hle))] at hfactor
      rw [abs_of_nonneg (sub_nonneg.2 hle)]
      norm_num at hfactor ⊢
      linarith
  calc |x.val - ρ| ≤ |x.val - p| + |p - ρ| := abs_sub_le x.val p ρ
    _ ≤ 7e-7 := by
      norm_num at hstep hdistance ⊢
      linarith

end Characteristic

/-! ## The outcome -/

/-- A result of Brent's method next to a root of at least 1 is not negative. -/
theorem Search.nonneg_of_near {c ρ : ℝ} (hρ : 1 ≤ ρ) (hnear : |ρ - c| ≤ precision c) : 0 ≤ c := by
  by_contra hneg
  unfold precision at hnear
  rw [abs_of_neg (not_le.1 hneg)] at hnear
  have := (abs_le.1 hnear).2
  norm_num at this
  linarith

/-- A point next to the root, once snapped, agrees with what the search in a bracket ends at. -/
theorem Search.abs_snap_sub_le_of_near {g : Characteristic (Exact ℝ)} {ρ : ℝ} (hρ : 1 ≤ ρ)
    (hcrosses : g.Crosses ρ) {upper r : Exact ℝ}
    (hcold : (inBracket g upper deltaTolerance).result = .finite r) (hr : r.val ≤ 1e7)
    {x : Exact ℝ} (hx : |x.val - ρ| ≤ 7e-7) :
    |(Scalar.snap x deltaTolerance).val - r.val| ≤ 1e-6 := by
  have htolerance : (deltaTolerance : Exact ℝ).val = 1e-9 := rfl
  obtain ⟨c, hcertified, hsnap⟩ := exists_certified (by rw [htolerance]; norm_num) hcold
  have hnear := abs_sub_le_precision hcrosses hcertified
  have hc := nonneg_of_near hρ hnear
  have hmoved := Exact.abs_snap_sub_le x deltaTolerance (by rw [htolerance]; norm_num)
  rw [htolerance] at hsnap hmoved
  have hprecision : precision c.val ≤ 1e-7 := by
    have := (abs_le.1 hsnap).1
    rw [precision, abs_of_nonneg hc]
    norm_num at this hr ⊢
    linarith
  calc |(Scalar.snap x deltaTolerance).val - r.val|
      ≤ |(Scalar.snap x deltaTolerance).val - x.val| + |x.val - r.val| := abs_sub_le _ _ _
    _ ≤ 1e-9 + (|x.val - ρ| + |ρ - r.val|) := add_le_add hmoved (abs_sub_le _ _ _)
    _ ≤ 1e-9 + (7e-7 + (|ρ - c.val| + |c.val - r.val|)) := by
      gcongr
      exact abs_sub_le _ _ _
    _ ≤ 1e-9 + (7e-7 + (1e-7 + 1e-9)) := by
      gcongr
      · exact hnear.trans hprecision
      · rwa [abs_sub_comm]
    _ ≤ 1e-6 := by norm_num

/-- **Every hint is advisory for deltas within a factor of 32**, unless the deltas or the root are
very large. -/
theorem agree_of_spread {deltas : List (Exact ℝ)} {low high : ℝ} (hlow : 0 < low)
    (h : ∀ d ∈ deltas, low ≤ d.val ∧ d.val ≤ high) (hspread : high ≤ 32 * low) (hhigh : high ≤ 1e7)
    {r : Exact ℝ} (hcold : (dominantRoot deltas none).result = .finite r) (hr : r.val ≤ 1e7)
    (guess : Option (Exact ℝ)) : (dominantRoot deltas guess).result.Agree (.finite r) := by
  rw [dominantRoot_result deltas guess]
  cases hadopted : adopted? deltas guess with
  | none =>
      simp only [hcold]
      exact Root.Agree.refl _
  | some x =>
      obtain ⟨upper, hint, hbracket, _, _, hnewton, haccepts⟩ := adopted?_eq_some_iff.1 hadopted
      have hne : deltas ≠ [] := by
        rintro rfl
        contradiction
      have hx : 1 ≤ x.val := by
        have := of_decide_eq_true (Bool.and_eq_true_iff.1 haccepts).1
        rw [Exact.le_iff] at this
        norm_num at this
        exact this
      have hone : 1 ≤ (unit deltas).sum Exact.val 1 := by
        have : 1 ≤ deltas.length := List.length_pos_of_ne_nil hne
        simpa [sum_unit] using this
      have hdelay : ∀ p ∈ (unit deltas).powers, low ≤ p.delta.val := by
        simpa [unit] using fun d hd => (h d hd).1
      obtain ⟨ρ, hρ, hsolution⟩ := exists_solution hlow hdelay hone
      have hpos : 0 < ρ := one_pos.trans_le hρ
      have hwarm := abs_sub_le_of_reached hne hlow h hspread hhigh hx
        (Newton.search_reached hnewton) hpos hsolution
      -- the search in the bracket ends next to the same root
      have hcrosses := (splitAt_unit hlow fun d hd => (h d hd).1).crosses hpos hsolution
      rw [dominantRoot_none_result hbracket] at hcold
      right
      rw [Exact.le_iff, Exact.val_abs, Exact.val_sub, Exact.val_ofScientific]
      exact abs_snap_sub_le_of_near hρ hcrosses hcold hr hwarm

end GrowthOrder
