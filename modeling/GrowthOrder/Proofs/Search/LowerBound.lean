import GrowthOrder.Proofs.Search.Enclosure
import GrowthOrder.Proofs.Search.History
import GrowthOrder.Proofs.Search.Outcome

/-!
# GrowthOrder.Proofs.Search.LowerBound

Every root that a search reports is at least 1, in exact arithmetic.  No search checks that: both
searches for a bracket end at or above 1, Brent's method stays in `[1, upper]`, a point that
Newton's method found is believed only from 1 on, and 1 is a whole number, which snapping does not
cross.
-/

namespace GrowthOrder

variable {K : Type} [Field K] [LinearOrder K] [IsStrictOrderedRing K] [FloorRing K] [ExpLog K]

/-- Rounding to a whole number does not cross 1. -/
theorem Exact.one_le_val_snap {x : Exact K} (hx : 1 ≤ x.val) (tolerance : Exact K) :
    1 ≤ (Scalar.snap x tolerance).val := by
  have hzero : (0.0 : K) = 0 := by norm_num
  have hone : (1.0 : K) = 1 := by norm_num
  have hfloor : 1 ≤ (Scalar.floor x).val := by
    rw [val_floor]
    exact_mod_cast Int.le_floor.2 (by exact_mod_cast hx)
  have hround : 1 ≤ (Scalar.round x).val := by
    have hnonneg : ¬x < (0.0 : Exact K) := by
      rw [lt_iff, val_ofScientific, hzero]
      linarith
    rw [Scalar.round, if_neg hnonneg]
    simp only [Scalar.roundUnsigned]
    split
    · exact hfloor
    · rw [val_add, val_ofScientific, hone]
      linarith
  unfold Scalar.snap
  split_ifs
  · exact hx
  · rw [val_add, val_ofScientific, hzero, add_zero]
    exact hround
  · exact hx

/-! ## Brackets -/

namespace Bracket

variable {g : Characteristic (Exact K)} {upper : Exact K}

theorem one_le_cap : 1 ≤ (cap : Exact K).val := by
  norm_num [cap]

theorem one_le_of_byDoubling (h : (byDoubling g).result = some upper) : 1 ≤ upper.val := by
  have htwo : (2.0 : K) = 2 := by norm_num
  obtain ⟨j, rfl⟩ := exists_power_of_doublingFrom h
  rw [Exact.val_power, Exact.val_ofScientific, htwo]
  exact one_le_pow₀ one_le_two

/-- A bound that is stretched does not shrink. -/
theorem one_le_of_stretchFrom {remaining : Nat} {b : Exact K} (hb : 1 ≤ b.val)
    (h : (stretchFrom g remaining b).result = some upper) : 1 ≤ upper.val := by
  induction remaining generalizing b with
  | zero =>
      simp only [stretchFrom] at h
      split_ifs at h
      rwa [← Option.some.inj h]
  | succ remaining ih =>
      simp only [stretchFrom] at h
      split_ifs at h
      · rwa [← Option.some.inj h]
      · refine ih ?_ h
        have htwo : (2.0 : K) = 2 := by norm_num
        rw [Exact.val_min, Exact.val_mul, Exact.val_ofScientific, htwo]
        exact le_min (by linarith) one_le_cap

theorem one_le_bound (size : Nat) (minDelta : Exact K) : 1 ≤ (bound size minDelta).val := by
  simp only [bound]
  split
  · exact one_le_cap
  · have htwo : (2.0 : K) = 2 := by norm_num
    rw [Exact.val_max, Exact.val_ofScientific, htwo]
    exact one_le_two.trans (le_max_right _ _)

theorem one_le_of_fromBound {minDelta : Exact K}
    (h : (fromBound g minDelta).result = some upper) : 1 ≤ upper.val :=
  one_le_of_stretchFrom (one_le_bound _ _) h

end Bracket

/-! ## Roots -/

namespace Search

theorem one_le_of_found {g : Characteristic (Exact K)} {upper tolerance r : Exact K}
    (hupper : 1 ≤ upper.val) (h : Found g upper tolerance r) : 1 ≤ r.val := by
  have hone : (1.0 : K) = 1 := by norm_num
  cases h with
  | inside hx =>
      have habsolute : 0 < (Brent.Options.standard : Brent.Options (Exact K)).absolute.val := by
        norm_num [Brent.Options.standard]
      have hrelative : 0 ≤ (Brent.Options.standard : Brent.Options (Exact K)).relative.val := by
        norm_num [Brent.Options.standard, Scalar.epsilon]
      have hmem := Brent.search_mem (t := Set.Ici 1) habsolute hrelative
        (by simp [hone]) (by simpa using hupper) hx
      exact Exact.one_le_val_snap hmem _
  | accepted haccepts =>
      have hx := (Bool.and_eq_true_iff.1 haccepts).1
      rw [decide_eq_true_iff, Exact.le_iff, Exact.val_ofScientific, hone] at hx
      exact Exact.one_le_val_snap hx _

theorem one_le_of_ofCharacteristic {g : Characteristic (Exact K)} {r : Exact K}
    (h : (ofCharacteristic g).result = .finite r) : 1 ≤ r.val := by
  obtain rfl | ⟨upper, hupper, hfound⟩ := found_of_ofCharacteristic h
  · norm_num
  · exact one_le_of_found (Bracket.one_le_of_byDoubling hupper) hfound

theorem one_le_of_ofDeltas {deltas : List (Exact K)} {guess : Option (Exact K)} {r : Exact K}
    (h : (ofDeltas deltas guess).result = .finite r) : 1 ≤ r.val := by
  obtain rfl | ⟨minDelta, upper, hupper, hfound⟩ := found_of_ofDeltas h
  · norm_num
  · exact one_le_of_found (Bracket.one_le_of_fromBound hupper) hfound

end Search

/-- A root that is kept was reported by some search. -/
theorem WarmCache.one_le_of_get? {κ : Type} [DecidableEq κ] (ops : List (Operation κ (Exact K)))
    {key : κ} {x : Exact K} (h : (after ops).get? key = some x) : 1 ≤ x.val := by
  induction ops with
  | nil => simp [after, empty, get?] at h
  | cons op past ih =>
      cases op with
      | find k deltas =>
          rw [after, perform, get?_find, find_fst] at h
          split_ifs at h with hkey
          · cases hroot : (dominantRoot deltas ((after past).get? k)).result with
            | finite r =>
                obtain rfl : r = x := by simpa [hroot, Root.value?] using h
                exact Search.one_le_of_ofDeltas hroot
            | infeasible => exact ih (by simpa [hroot, Root.value?] using h)
            | divergent => exact ih (by simpa [hroot, Root.value?] using h)
          · exact ih h
      | clear => simp [after, perform, clear, get?] at h

/-- **Every reported root is at least 1**: that of a recurrence, that of some deltas from any guess,
and that of a search through a cache, whatever was done with the cache before; so is every root that
a cache keeps. -/
theorem one_le_dominantRoot {κ : Type} [DecidableEq κ] {x : Exact K} :
    (∀ (r : Recurrence (Exact K)) search, r.dominantRoot = .ok search →
      search.result = .finite x → 1 ≤ x.val) ∧
    (∀ deltas guess, (dominantRoot deltas guess).result = .finite x → 1 ≤ x.val) ∧
    ∀ (ops : List (WarmCache.Operation κ (Exact K))) (key : κ),
      (∀ deltas, ((WarmCache.after ops).find key deltas).1 = .finite x → 1 ≤ x.val) ∧
        ((WarmCache.after ops).get? key = some x → 1 ≤ x.val) := by
  refine ⟨fun r search hsearch hresult => ?_, fun deltas guess hresult => ?_,
    fun ops key => ⟨fun deltas hresult => ?_, WarmCache.one_le_of_get? ops⟩⟩
  · obtain ⟨-, rfl⟩ := Recurrence.dominantRoot_eq_ok_iff.1 hsearch
    exact Search.one_le_of_ofCharacteristic hresult
  · exact Search.one_le_of_ofDeltas hresult
  · exact Search.one_le_of_ofDeltas hresult

/-- `T(n) = 2*T(n-1)` and the deltas 1 and 1 both have the characteristic function `3 - 2 * x`. -/
theorem one_le_dominantRoot_tangent :
    ∃ (search : Recorded (Exact ℚ) (Root (Exact ℚ))) (root : Exact ℚ),
      Recurrence.dominantRoot ⟨⟨1.0, "T", ["n"], [0.0]⟩, [.call ⟨2.0, "T", ["n"], [-1.0]⟩]⟩ =
          .ok search ∧
        search.result = .finite root ∧
        (dominantRoot [1.0, 1.0] (some 2.0)).result = .finite root ∧
        ((WarmCache.after [.find "k" [1.0, 1.0]]).find "k" [1.0, 1.0]).1 = .finite root ∧
        (WarmCache.after [.find "k" [1.0, 1.0]]).get? "k" = some root ∧
        root.val = 3 / 2 ∧ 1 ≤ root.val := by
  have hroot : (dominantRoot [1.0, 1.0] (some (2.0 : Exact ℚ))).result = .finite ⟨3 / 2⟩ := by
    decide +kernel
  refine ⟨_, ⟨3 / 2⟩, rfl, ?_, hroot, ?_, ?_, rfl, ?_⟩
  · decide +kernel
  · decide +kernel
  · decide +kernel
  · exact (one_le_dominantRoot (κ := String)).2.1 _ _ hroot

end GrowthOrder
