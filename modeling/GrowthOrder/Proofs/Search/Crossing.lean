import GrowthOrder.Proofs.Characteristic
import GrowthOrder.Proofs.Search.Enclosure
import GrowthOrder.Search.Dominant

/-!
# GrowthOrder.Proofs.Search.Crossing

Where a characteristic function crosses zero only once, a search in a bracket ends next to the
crossing: the sign change that certifies its result has to be that one.
-/

namespace GrowthOrder

namespace Characteristic

variable {g : Characteristic (Exact ℝ)}

/-- The value is positive left of `ρ` and negative right of it. -/
structure Crosses (g : Characteristic (Exact ℝ)) (ρ : ℝ) : Prop where
  below : ∀ x : Exact ℝ, x.val < ρ → 0 < (g.value x).val
  above : ∀ x : Exact ℝ, ρ < x.val → (g.value x).val < 0

/-- A solution is where the function crosses, if the negative coefficients come first. -/
theorem SplitAt.crosses {t ρ : ℝ} (h : g.SplitAt t) (hρ : 0 < ρ) (hsum : g.sum Exact.val ρ = 1) :
    g.Crosses ρ := by
  constructor
  · intro x hx
    by_cases hpos : 0 < x.val
    · have hlarge := h.one_lt_sum hpos hx hsum.ge
      rw [val_value g hpos]
      linarith
    · rw [val_value_of_nonpos g (not_lt.1 hpos)]
      exact one_pos
  · intro x hx
    rw [val_value g (hρ.trans hx)]
    by_contra hvalue
    have hlarge := h.one_lt_sum hρ hx (by linarith)
    exact hlarge.ne' hsum

end Characteristic

namespace Search

open Characteristic

variable {g : Characteristic (Exact ℝ)}

/-! ## The precision of a search in a bracket -/

/-- How far the crossing may lie from a result that Brent's method stops at. -/
noncomputable def precision (x : ℝ) : ℝ :=
  2e-12 + 4 / 2 ^ 52 * |x|

/-- No precision is lost by going right. -/
theorem add_precision_mono {x y : ℝ} (h : x ≤ y) : x + precision x ≤ y + precision y := by
  have habs : |x| - |y| ≤ |x - y| := abs_sub_abs_le_abs_sub x y
  rw [abs_sub_comm, abs_of_nonneg (sub_nonneg.2 h)] at habs
  unfold precision
  linarith

theorem val_standard_tolerance (x : Exact ℝ) :
    (((Brent.Options.standard : Brent.Options (Exact ℝ)).absolute
      + Brent.Options.standard.relative * Scalar.abs x) / 2.0).val = precision x.val / 2 := by
  norm_num [Brent.Options.standard, Scalar.epsilon, precision]

/-- Brent's method stops next to a crossing. -/
theorem abs_sub_le_precision {ρ : ℝ} (h : g.Crosses ρ) {c : Exact ℝ}
    (hc : Brent.Certified g.value .standard c) : |ρ - c.val| ≤ precision c.val := by
  have hprecision : 0 ≤ precision c.val := by
    unfold precision
    positivity
  obtain hzero | ⟨y, hsign, hnear⟩ := hc
  · have hvalue : (g.value c).val = 0 := (Brent.isZero_iff _).1 hzero
    have heq : ρ = c.val := by
      by_contra hne
      obtain hlt | hlt := lt_or_gt_of_ne hne
      · exact (h.above c hlt).ne hvalue
      · exact (h.below c hlt).ne' hvalue
    simpa [heq] using hprecision
  · have hdist : |y.val - c.val| < precision c.val := by
      rw [Exact.lt_iff, val_standard_tolerance] at hnear
      norm_num [abs_div] at hnear
      linarith
    -- the crossing lies between the two points, as their values differ in sign
    have hsplit : (g.value c).val < 0 ↔ ¬(g.value y).val < 0 :=
      (Brent.opposite_iff_neg _ _).1 hsign
    rw [abs_lt] at hdist
    rw [abs_le]
    by_cases hneg : (g.value c).val < 0
    · have hleft : ρ ≤ c.val := by
        by_contra hlt
        exact (h.below c (not_le.1 hlt)).not_gt hneg
      have hright : y.val ≤ ρ := by
        by_contra hlt
        exact hsplit.1 hneg (h.above y (not_le.1 hlt))
      constructor <;> linarith
    · have hright : c.val ≤ ρ := by
        by_contra hlt
        exact hneg (h.above c (not_le.1 hlt))
      have hleft : ρ ≤ y.val := by
        by_contra hlt
        exact hneg (hsplit.2 (h.below y (not_le.1 hlt)).not_gt)
      constructor <;> linarith

/-! ## The result -/

/-- A root found in a bracket is a point that Brent's method stopped at, perhaps snapped. -/
theorem exists_certified {upper tolerance r : Exact ℝ} (htolerance : 0 ≤ tolerance.val)
    (h : (inBracket g upper tolerance).result = .finite r) :
    ∃ c, Brent.Certified g.value .standard c ∧ |r.val - c.val| ≤ tolerance.val := by
  unfold inBracket at h
  cases hfound : (Brent.search g.value 1.0 upper .standard).result with
  | error e => simp [hfound] at h
  | ok c =>
      simp only [hfound, snap, Root.finite.injEq] at h
      refine ⟨c, Brent.search_certified Exact.not_abs_lt_of_isZero hfound, ?_⟩
      rw [← h]
      exact Exact.abs_snap_sub_le c tolerance htolerance

end Search

end GrowthOrder
