import GrowthOrder.Proofs.Search.Crossing
import GrowthOrder.Recurrence.Parser

/-!
# GrowthOrder.Proofs.Search.Dominance

When the growth base of a recurrence is dominant: no solution of `Σ c * x ^ (-d) = 1` lies beyond a
root that the search reports, and none from 1 on if it gives up before it has tried any bracket.

The search decides from the value at 1 and the first bracket it finds, which is enough where the
sum of the powers crosses 1 once.  With negative coefficients that depends on their place: the
answer is dominant for all sizes of the coefficients exactly if no negative coefficient looks back
further than a positive one.
-/

namespace GrowthOrder

open Characteristic Search

/-! ## Dominant answers -/

namespace Recurrence

variable {α : Type} [Scalar α]

/-- `x` solves the characteristic equation, `real` being what a number stands for. -/
def Solves (real : α → ℝ) (r : Recurrence α) (x : ℝ) : Prop :=
  (ofRecurrence r).sum real x = 1

/-- The answer of the search is dominant, where a reported root stands for all numbers up to its
`reach`. -/
structure Dominant (real : α → ℝ) (reach : ℝ → ℝ) (r : Recurrence α) : Prop where
  /-- No solution lies beyond a root that is reported. -/
  finite : ∀ events root, r.dominantRoot = .ok ⟨events, .finite root⟩ →
    ∀ x, reach (real root) < x → ¬r.Solves real x
  /-- If none is reported and none was looked for, then there is none. -/
  infeasible : ∀ events, r.dominantRoot = .ok ⟨events, .infeasible⟩ →
    (∀ x value, Event.probe x value ∉ events) → ∀ x, 1 ≤ x → ¬r.Solves real x

end Recurrence

/-! ## Negative coefficients first -/

namespace Characteristic

/-- No power with a negative coefficient looks back further than one with a positive one. -/
def NegativesFirst (g : Characteristic (Exact ℝ)) : Prop :=
  ∀ p ∈ g.powers, ∀ q ∈ g.powers, p.coefficient.val < 0 → 0 < q.coefficient.val →
    p.delta.val ≤ q.delta.val

/-- The furthest that a negative coefficient looks back, but at least 1. -/
theorem exists_furthest_negative (ps : List (Power (Exact ℝ))) :
    ∃ t : ℝ, 1 ≤ t ∧ (∀ p ∈ ps, p.coefficient.val < 0 → p.delta.val ≤ t) ∧
      (t = 1 ∨ ∃ p ∈ ps, p.coefficient.val < 0 ∧ p.delta.val = t) := by
  induction ps with
  | nil => exact ⟨1, le_rfl, by simp, .inl rfl⟩
  | cons p ps ih =>
      obtain ⟨t, hone, hbound, hfrom⟩ := ih
      have hfrom' : t = 1 ∨ ∃ q ∈ p :: ps, q.coefficient.val < 0 ∧ q.delta.val = t :=
        hfrom.imp_right fun ⟨q, hq, h⟩ => ⟨q, List.mem_cons_of_mem p hq, h⟩
      by_cases hfurther : p.coefficient.val < 0 ∧ t < p.delta.val
      · refine ⟨p.delta.val, hone.trans hfurther.2.le, ?_,
          .inr ⟨p, List.mem_cons_self, hfurther.1, rfl⟩⟩
        simp only [List.forall_mem_cons]
        exact ⟨fun _ => le_rfl, fun q hq hneg => (hbound q hq hneg).trans hfurther.2.le⟩
      · refine ⟨t, hone, ?_, hfrom'⟩
        simp only [List.forall_mem_cons]
        exact ⟨fun hneg => not_lt.1 fun hlt => hfurther ⟨hneg, hlt⟩, hbound⟩

variable {g : Characteristic (Exact ℝ)}

/-- If the negative coefficients come first, the sum crosses 1 once. -/
theorem NegativesFirst.exists_splitAt (h : g.NegativesFirst)
    (hdelay : ∀ p ∈ g.powers, 1 ≤ p.delta.val) : ∃ t, 1 ≤ t ∧ g.SplitAt t := by
  obtain ⟨t, hone, hbound, hfrom⟩ := exists_furthest_negative g.powers
  refine ⟨t, hone, one_pos.trans_le hone, hbound, ?_⟩
  intro q hq hpos
  obtain rfl | ⟨p, hp, hneg, rfl⟩ := hfrom
  · exact hdelay q hq
  · exact h p hp q hq hneg hpos

end Characteristic

/-! ## The answer if the sum crosses 1 once -/

namespace Search

variable {g : Characteristic (Exact ℝ)}

/-- Which solutions an exact root stands for: those that may have been snapped to it, and those that
Brent's method does not tell from them. -/
noncomputable def reach (root : ℝ) : ℝ :=
  root + 1e-6 + precision (root + 1e-6)

/-- The first power of two is always tried. -/
theorem exists_probe (g : Characteristic (Exact ℝ)) :
    ∃ x value, Event.probe x value ∈ (Bracket.byDoubling g).events := by
  have hcap : ¬(Bracket.cap : Exact ℝ) < Scalar.power 2.0 1 := by
    rw [Exact.lt_iff]
    norm_num [Bracket.cap, Scalar.power, Scalar.powerFrom, Nat.log2]
  refine ⟨Scalar.power 2.0 1, g.value (Scalar.power 2.0 1), ?_⟩
  unfold Bracket.byDoubling Bracket.maxProbes Bracket.doublingFrom
  simp only [hcap, if_false]
  split
  · exact List.mem_singleton_self _
  · exact List.mem_cons_self

theorem not_any_nonpos (hdelay : ∀ p ∈ g.powers, 1 ≤ p.delta.val) :
    (g.deltas.any fun d => decide (d ≤ (0.0 : Exact ℝ))) = false := by
  rw [List.any_eq_false]
  intro d hd
  obtain ⟨p, hp, rfl⟩ := List.mem_map.1 hd
  have := hdelay p hp
  rw [decide_eq_true_iff, Exact.le_iff]
  norm_num
  linarith

/-- A value of almost 0 at 1 leaves no room for a solution beyond. -/
theorem le_of_sum_one_le {t : ℝ} (ht : 1 ≤ t) (h : g.SplitAt t) {x : ℝ} (hx : 1 ≤ x)
    (hsolution : g.sum Exact.val x = 1) : x ≤ g.sum Exact.val 1 := by
  have hfall := h.rpow_mul_sum_anti one_pos hx
  rw [hsolution, mul_one, Real.one_rpow, one_mul] at hfall
  exact (Real.self_le_rpow_of_one_le hx ht).trans hfall

/-- A root found in a bracket reaches as far as the solution. -/
theorem le_reach_of_inBracket {t : ℝ} (h : g.SplitAt t) {upper root : Exact ℝ}
    (hroot : (inBracket g upper recurrenceTolerance).result = .finite root) {x : ℝ} (hx : 0 < x)
    (hsolution : g.sum Exact.val x = 1) : x ≤ reach root.val := by
  have htolerance : (recurrenceTolerance : Exact ℝ).val = 1e-6 := rfl
  obtain ⟨c, hcertified, hsnap⟩ := exists_certified (by rw [htolerance]; norm_num) hroot
  have hnear := abs_le.1 (abs_sub_le_precision (h.crosses hx hsolution) hcertified)
  rw [htolerance] at hsnap
  have hc : c.val ≤ root.val + 1e-6 := by linarith [(abs_le.1 hsnap).1]
  have hmono := add_precision_mono hc
  unfold reach
  linarith

/-- The decisions of the search, where every power looks back by at least 1. -/
theorem ofCharacteristic_eq (hdelay : ∀ p ∈ g.powers, 1 ≤ p.delta.val) :
    ofCharacteristic g =
      if g.powers = [] then ⟨[], .finite 1.0⟩
      else if |g.sum Exact.val 1 - 1| ≤ 1e-12 then ⟨[], .finite 1.0⟩
      else if g.sum Exact.val 1 < 1 then ⟨[], .infeasible⟩
      else bracketed (Bracket.byDoubling g) fun upper => inBracket g upper recurrenceTolerance := by
  have hempty : g.isEmpty = true ↔ g.powers = [] := List.isEmpty_iff
  have hcancel : Scalar.abs g.atOne ≤ (cancellation : Exact ℝ) ↔
      |g.sum Exact.val 1 - 1| ≤ 1e-12 := by
    rw [Exact.le_iff, Exact.val_abs, val_atOne]
    rfl
  have hsmall : g.atOne < (0.0 : Exact ℝ) ↔ g.sum Exact.val 1 < 1 := by
    rw [Exact.lt_iff, val_atOne, sub_lt_iff_lt_add]
    norm_num
  unfold ofCharacteristic
  simp only [hempty, not_any_nonpos hdelay, hcancel, hsmall, Bool.false_eq_true, if_false]

/-- No solution lies beyond a root that is reported. -/
theorem not_solution_beyond {t : ℝ} (ht : 1 ≤ t) (h : g.SplitAt t)
    (hdelay : ∀ p ∈ g.powers, 1 ≤ p.delta.val) {root : Exact ℝ}
    (hroot : (ofCharacteristic g).result = .finite root) {x : ℝ} (hx : reach root.val < x) :
    g.sum Exact.val x ≠ 1 := by
  intro hsolution
  rw [ofCharacteristic_eq hdelay] at hroot
  split at hroot
  · next hempty => simp [sum, hempty] at hsolution
  split at hroot
  · next hcancel =>
    have hreach : (1 : ℝ) + 1e-6 ≤ reach root.val := by
      obtain rfl := Root.finite.inj hroot
      norm_num [reach, precision]
    have hle := le_of_sum_one_le ht h (by linarith) hsolution
    have hgap := (abs_le.1 hcancel).2
    norm_num at hreach hle hgap hx
    linarith
  split at hroot
  · contradiction
  · next hlarge =>
    unfold bracketed at hroot
    split at hroot
    · contradiction
    -- some solution is at least 1, so what lies beyond is positive
    obtain ⟨ρ, hρ, hsum⟩ := exists_solution one_pos hdelay (not_lt.1 hlarge)
    have hfirst := le_reach_of_inBracket h hroot (by linarith) hsum
    have hlast := le_reach_of_inBracket h hroot (by linarith) hsolution
    linarith

/-- If the search gives up without a probe, there is no solution from 1 on. -/
theorem not_solution_of_no_probe {t : ℝ} (h : g.SplitAt t)
    (hdelay : ∀ p ∈ g.powers, 1 ≤ p.delta.val)
    (hresult : (ofCharacteristic g).result = .infeasible)
    (hprobe : ∀ x value, Event.probe x value ∉ (ofCharacteristic g).events) {x : ℝ} (hx : 1 ≤ x) :
    g.sum Exact.val x ≠ 1 := by
  intro hsolution
  rw [ofCharacteristic_eq hdelay] at hresult hprobe
  split at hresult
  · contradiction
  split at hresult
  · contradiction
  split at hresult
  · next hsmall =>
    obtain rfl | hlt := hx.eq_or_lt
    · exact hsmall.ne hsolution
    · exact (h.one_lt_sum one_pos hlt hsolution.ge).not_gt hsmall
  · next hempty hcancel hlarge =>
    obtain ⟨b, value, hmem⟩ := exists_probe g
    refine hprobe b value ?_
    simp only [hempty, hcancel, hlarge, if_false]
    unfold bracketed
    split
    · exact hmem
    · exact List.mem_append_left _ hmem

end Search

/-! ## Coefficients for which the search misses a solution -/

namespace Characteristic

/-- The sign of a coefficient, with weight `m` where a positive one looks back by `d`, and `n` where
a negative one looks back by `e`. -/
noncomputable def weight (d e m n : ℝ) (p : Power (Exact ℝ)) : ℝ :=
  SignType.sign p.coefficient.val
    + (if 0 < p.coefficient.val ∧ p.delta.val = d then m else 0)
    - (if p.coefficient.val < 0 ∧ p.delta.val = e then n else 0)

theorem sign_weight {m n : ℝ} (hm : 0 ≤ m) (hn : 0 ≤ n) (d e : ℝ) (p : Power (Exact ℝ)) :
    SignType.sign (weight d e m n p) = SignType.sign p.coefficient.val := by
  obtain hneg | hzero | hpos := lt_trichotomy p.coefficient.val 0
  · have hlt : weight d e m n p < 0 := by
      simp only [weight, sign_neg hneg, hneg, hneg.not_gt, false_and, if_false, true_and]
      split <;> norm_num
      linarith
    rw [sign_neg hlt, sign_neg hneg]
  · simp [weight, hzero]
  · have hlt : 0 < weight d e m n p := by
      simp only [weight, sign_pos hpos, hpos, hpos.not_gt, false_and, if_false, true_and]
      split <;> norm_num
      linarith
    rw [sign_pos hlt, sign_pos hpos]

/-- The number of powers that get the weight `m`. -/
noncomputable def positivesAt (d : ℝ) (ps : List (Power (Exact ℝ))) : Nat :=
  ps.countP fun p => decide (0 < p.coefficient.val ∧ p.delta.val = d)

/-- The number of powers that get the weight `n`. -/
noncomputable def negativesAt (e : ℝ) (ps : List (Power (Exact ℝ))) : Nat :=
  ps.countP fun p => decide (p.coefficient.val < 0 ∧ p.delta.val = e)

/-- The sum of the powers as they are weighted, in terms of the weights. -/
theorem sum_weight (d e m n x : ℝ) (ps : List (Power (Exact ℝ))) :
    (ps.map fun p => weight d e m n p * x ^ (-p.delta.val)).sum =
      (ps.map fun p => (SignType.sign p.coefficient.val : ℝ) * x ^ (-p.delta.val)).sum
        + m * x ^ (-d) * positivesAt d ps - n * x ^ (-e) * negativesAt e ps := by
  induction ps with
  | nil => simp [positivesAt, negativesAt]
  | cons p ps ih =>
      have hm : (if 0 < p.coefficient.val ∧ p.delta.val = d then m else 0) * x ^ (-p.delta.val) =
          m * x ^ (-d) * (if 0 < p.coefficient.val ∧ p.delta.val = d then 1 else 0) := by
        split
        · next h => rw [h.2, mul_one]
        · simp
      have hn : (if p.coefficient.val < 0 ∧ p.delta.val = e then n else 0) * x ^ (-p.delta.val) =
          n * x ^ (-e) * (if p.coefficient.val < 0 ∧ p.delta.val = e then 1 else 0) := by
        split
        · next h => rw [h.2, mul_one]
        · simp
      have hweight : weight d e m n p * x ^ (-p.delta.val) =
          (SignType.sign p.coefficient.val : ℝ) * x ^ (-p.delta.val)
            + m * x ^ (-d) * (if 0 < p.coefficient.val ∧ p.delta.val = d then 1 else 0)
            - n * x ^ (-e) * (if p.coefficient.val < 0 ∧ p.delta.val = e then 1 else 0) := by
        rw [← hm, ← hn, weight]
        ring
      simp only [List.map_cons, List.sum_cons, ih, hweight, positivesAt, negativesAt,
        List.countP_cons, decide_eq_true_eq, Nat.cast_add, Nat.cast_ite, Nat.cast_one,
        Nat.cast_zero]
      ring

/-- Weights that balance at one point and come out large at another. -/
theorem exists_balance {A B a b u v : ℝ} (hab : b < a) (hu : 0 < u) (hv : 0 < v) :
    ∃ m n, 0 ≤ m ∧ 0 ≤ n ∧ A + m * u - n * v = 0 ∧ 1 ≤ B + m * a * u - n * b * v := by
  have hgap : 0 < a - b := sub_pos.2 hab
  have hlarge : 2 - B + A * b ≤ |2 - B + A * b| := le_abs_self _
  have hsigned : -A ≤ |A| := neg_le_abs A
  have hpart : 0 ≤ |2 - B + A * b| / (a - b) := div_nonneg (abs_nonneg _) hgap.le
  -- what the positive powers come to in all
  obtain ⟨total, htotal⟩ : ∃ total, total = |A| + |2 - B + A * b| / (a - b) := ⟨_, rfl⟩
  have hgain : 2 - B + A * b ≤ total * (a - b) := by
    have hcancel : |2 - B + A * b| / (a - b) * (a - b) = |2 - B + A * b| :=
      div_mul_cancel₀ _ hgap.ne'
    have := mul_nonneg (abs_nonneg A) hgap.le
    rw [htotal, add_mul, hcancel]
    linarith
  refine ⟨total / u, (total + A) / v, div_nonneg ?_ hu.le, div_nonneg ?_ hv.le, ?_, ?_⟩
  · linarith [abs_nonneg A]
  · linarith
  · rw [div_mul_cancel₀ _ hu.ne', div_mul_cancel₀ _ hv.ne']
    ring
  · have hm : total / u * a * u = total * a := by field_simp
    have hn : (total + A) / v * b * v = (total + A) * b := by field_simp
    rw [hm, hn]
    linarith

/-- The same powers with other coefficients. -/
def reweigh {α : Type} (w : Power α → α) (g : Characteristic α) : Characteristic α :=
  ⟨g.powers.map fun p => ⟨w p, p.delta⟩⟩

theorem sum_reweigh (w : Power (Exact ℝ) → Exact ℝ) (g : Characteristic (Exact ℝ)) (x : ℝ) :
    (g.reweigh w).sum Exact.val x =
      (g.powers.map fun p => (w p).val * x ^ (-p.delta.val)).sum := by
  simp [sum, reweigh, Function.comp_def]

/-- If a negative coefficient looks back further than a positive one, then with some coefficients of
the same signs the search gives up at once, though there is a solution. -/
theorem exists_missed_solution {g : Characteristic (Exact ℝ)}
    (hdelay : ∀ p ∈ g.powers, 1 ≤ p.delta.val) (h : ¬g.NegativesFirst) :
    ∃ w : Power (Exact ℝ) → Exact ℝ,
      (∀ p, SignType.sign (w p).val = SignType.sign p.coefficient.val) ∧
      ofCharacteristic (g.reweigh w) = ⟨[], .infeasible⟩ ∧
      ∃ x, 1 ≤ x ∧ (g.reweigh w).sum Exact.val x = 1 := by
  unfold NegativesFirst at h
  push Not at h
  obtain ⟨p, hp, q, hq, hneg, hpos, hlt⟩ := h
  have hpositives : 0 < (positivesAt q.delta.val g.powers : ℝ) :=
    Nat.cast_pos.2 (List.countP_pos_iff.2 ⟨q, hq, by simpa using hpos⟩)
  have hnegatives : 0 < (negativesAt p.delta.val g.powers : ℝ) :=
    Nat.cast_pos.2 (List.countP_pos_iff.2 ⟨p, hp, by simpa using hneg⟩)
  have hpowers : (2 : ℝ) ^ (-p.delta.val) < 2 ^ (-q.delta.val) :=
    Real.rpow_lt_rpow_of_exponent_lt one_lt_two (neg_lt_neg hlt)
  obtain ⟨m, n, hm, hn, hatOne, hatTwo⟩ := exists_balance
    (A := (g.powers.map fun p => (SignType.sign p.coefficient.val : ℝ) * 1 ^ (-p.delta.val)).sum)
    (B := (g.powers.map fun p => (SignType.sign p.coefficient.val : ℝ) * 2 ^ (-p.delta.val)).sum)
    hpowers hpositives hnegatives
  obtain ⟨w, hw⟩ : ∃ w : Power (Exact ℝ) → Exact ℝ,
      ∀ r, (w r).val = weight q.delta.val p.delta.val m n r := ⟨fun _ => ⟨_⟩, fun _ => rfl⟩
  have hone : (g.reweigh w).sum Exact.val 1 = 0 := by
    simp only [sum_reweigh, hw]
    rw [sum_weight, Real.one_rpow, Real.one_rpow, mul_one, mul_one]
    exact hatOne
  have htwo : 1 ≤ (g.reweigh w).sum Exact.val 2 := by
    simp only [sum_reweigh, hw]
    rw [sum_weight]
    exact hatTwo
  have hsign : ∀ r, SignType.sign (w r).val = SignType.sign r.coefficient.val := by
    intro r
    rw [hw]
    exact sign_weight hm hn _ _ r
  refine ⟨w, hsign, ?_, ?_⟩
  · have hpowers : (g.reweigh w).powers ≠ [] := by
      simpa [reweigh] using List.ne_nil_of_mem hp
    have hdelay' : ∀ p ∈ (g.reweigh w).powers, 1 ≤ p.delta.val := by
      simpa [reweigh] using hdelay
    rw [ofCharacteristic_eq hdelay', if_neg hpowers, hone]
    norm_num
  · have hcontinuous : ContinuousOn ((g.reweigh w).sum Exact.val) (Set.Icc 1 2) :=
      (continuousOn_sum Exact.val _).mono fun x hx => one_pos.trans_le hx.1
    have hvalue : (1 : ℝ) ∈ Set.Icc ((g.reweigh w).sum Exact.val 1)
        ((g.reweigh w).sum Exact.val 2) :=
      ⟨by rw [hone]; exact zero_le_one, htwo⟩
    obtain ⟨x, hx, hsolution⟩ := intermediate_value_Icc one_le_two hcontinuous hvalue
    exact ⟨x, hx.1, hsolution⟩

end Characteristic

/-! ## The main result -/

namespace Recurrence

theorem dominantRoot_eq {α : Type} [Scalar α] {r : Recurrence α} (hone : r.parameters.length = 1) :
    r.dominantRoot = .ok (finish (ofCharacteristic (ofRecurrence r))) := by
  simp [dominantRoot, hone]

/-- Where the negative coefficients come first, the answer is dominant. -/
theorem dominant_of_negativesFirst {r : Recurrence (Exact ℝ)} (hone : r.parameters.length = 1)
    (hdelay : ∀ p ∈ (ofRecurrence r).powers, 1 ≤ p.delta.val)
    (h : (ofRecurrence r).NegativesFirst) : r.Dominant Exact.val reach := by
  obtain ⟨t, ht, hsplit⟩ := h.exists_splitAt hdelay
  constructor
  · intro events root hroot x hx
    rw [dominantRoot_eq hone, Except.ok.injEq] at hroot
    exact not_solution_beyond ht hsplit hdelay (congrArg Recorded.result hroot) hx
  · intro events hroot hprobe x hx
    rw [dominantRoot_eq hone, Except.ok.injEq] at hroot
    refine not_solution_of_no_probe hsplit hdelay (congrArg Recorded.result hroot) ?_ hx
    intro b value hmem
    have hevents : (finish (ofCharacteristic (ofRecurrence r))).events = events :=
      congrArg Recorded.events hroot
    refine hprobe b value ?_
    rw [← hevents]
    exact List.mem_append_left _ hmem

/-- The recurrence with other coefficients for its calls. -/
def withCoefficients {α : Type} (f : Call α → α) (r : Recurrence α) : Recurrence α where
  signature := r.signature
  terms := r.terms.map fun
    | .constant value => .constant value
    | .call c => .call { c with coefficient := f c }

theorem calls_withCoefficients {α : Type} (f : Call α → α) (r : Recurrence α) :
    (r.withCoefficients f).calls = r.calls.map fun c => { c with coefficient := f c } := by
  unfold calls Term.calls withCoefficients
  rw [List.filterMap_map, List.map_filterMap]
  congr 1
  funext t
  cases t <;> rfl

/-- A power of the recurrence with other coefficients comes from one that looks back as far, with
the coefficient that its call had. -/
theorem exists_of_mem_withCoefficients {α : Type} [Scalar α] {f : Call α → α} {r : Recurrence α}
    {p : Power α} (hp : p ∈ (ofRecurrence (r.withCoefficients f)).powers) :
    ∃ c ∈ r.calls, p.coefficient = f c ∧ ⟨c.coefficient, p.delta⟩ ∈ (ofRecurrence r).powers := by
  unfold ofRecurrence at hp ⊢
  rw [calls_withCoefficients] at hp
  obtain ⟨c', hc', hpower⟩ := List.mem_filterMap.1 hp
  obtain ⟨c, hc, rfl⟩ := List.mem_map.1 hc'
  obtain ⟨s, hs, rfl⟩ := Option.map_eq_some_iff.1 hpower
  refine ⟨c, hc, rfl, List.mem_filterMap.2 ⟨c, hc, ?_⟩⟩
  exact Option.map_eq_some_iff.2 ⟨s, hs, rfl⟩

/-- Coefficients that are given to the powers can be given to their calls. -/
theorem ofRecurrence_withCoefficients {α : Type} [Scalar α] (w : Power α → α) (r : Recurrence α) :
    ofRecurrence (r.withCoefficients fun c => ((powerOf? c).map w).getD c.coefficient) =
      (ofRecurrence r).reweigh w := by
  unfold ofRecurrence reweigh
  rw [calls_withCoefficients, List.filterMap_map, List.map_filterMap]
  congr 2
  funext c
  cases hs : c.shifts.head? <;> simp [powerOf?, hs]

/-- **When the answer is dominant**: for all sizes of the coefficients, their signs being given,
exactly if no negative coefficient looks back further than a positive one. -/
theorem dominant_iff_negativesFirst {r : Recurrence (Exact ℝ)} (hone : r.parameters.length = 1)
    (hdelay : ∀ p ∈ (ofRecurrence r).powers, 1 ≤ p.delta.val) :
    (∀ f : Call (Exact ℝ) → Exact ℝ,
      (∀ c ∈ r.calls, SignType.sign (f c).val = SignType.sign c.coefficient.val) →
        (r.withCoefficients f).Dominant Exact.val reach) ↔
      (ofRecurrence r).NegativesFirst := by
  constructor
  · intro hdominant
    by_contra hnot
    obtain ⟨w, hsign, hsearch, x, hx, hsolution⟩ := exists_missed_solution hdelay hnot
    have hpowers := ofRecurrence_withCoefficients w r
    have hroot := dominantRoot_eq
      (r := r.withCoefficients fun c => ((powerOf? c).map w).getD c.coefficient) hone
    rw [hpowers, hsearch] at hroot
    refine (hdominant _ ?_).infeasible _ hroot ?_ x hx ?_
    · intro c _
      cases hpower : powerOf? c with
      | none => simp
      | some p =>
          obtain ⟨s, _, rfl⟩ := Option.map_eq_some_iff.1 hpower
          simpa using hsign ⟨c.coefficient, -s⟩
    · simp
    · unfold Solves
      rw [hpowers]
      exact hsolution
  · intro hfirst f hsign
    apply dominant_of_negativesFirst (r := r.withCoefficients f) hone
    · intro p hp
      obtain ⟨c, _, _, hmem⟩ := exists_of_mem_withCoefficients hp
      exact hdelay ⟨c.coefficient, p.delta⟩ hmem
    · intro p hp q hq hneg hpos
      obtain ⟨c, hc, hcoefficient, hmem⟩ := exists_of_mem_withCoefficients hp
      obtain ⟨c', hc', hcoefficient', hmem'⟩ := exists_of_mem_withCoefficients hq
      rw [hcoefficient, ← sign_eq_neg_one_iff, hsign c hc, sign_eq_neg_one_iff] at hneg
      rw [hcoefficient', ← sign_eq_one_iff, hsign c' hc', sign_eq_one_iff] at hpos
      exact hfirst ⟨c.coefficient, p.delta⟩ hmem ⟨c'.coefficient, q.delta⟩ hmem' hneg hpos

/-- A recurrence with its negative coefficient first, `T(n) = -T(n-1) + 6*T(n-2)`. -/
noncomputable def negativeFirst : Recurrence (Exact ℝ) where
  signature := ⟨1.0, "T", ["n"], [0.0]⟩
  terms := [.call ⟨-1.0, "T", ["n"], [-1.0]⟩, .call ⟨6.0, "T", ["n"], [-2.0]⟩]

theorem negativeFirst_dominant_iff :
    negativeFirst.parameters.length = 1 ∧
      (∀ p ∈ (ofRecurrence negativeFirst).powers, 1 ≤ p.delta.val) ∧
      ((∀ f : Call (Exact ℝ) → Exact ℝ,
        (∀ c ∈ negativeFirst.calls, SignType.sign (f c).val = SignType.sign c.coefficient.val) →
          (negativeFirst.withCoefficients f).Dominant Exact.val reach) ↔
        (ofRecurrence negativeFirst).NegativesFirst) := by
  have hdelay : ∀ p ∈ (ofRecurrence negativeFirst).powers, 1 ≤ p.delta.val := by
    have hpowers : (ofRecurrence negativeFirst).powers = [⟨-1.0, - -1.0⟩, ⟨6.0, - -2.0⟩] := rfl
    rw [hpowers, List.forall_mem_cons, List.forall_mem_singleton]
    norm_num
  exact ⟨rfl, hdelay, dominant_iff_negativesFirst rfl hdelay⟩

end Recurrence

/-! ## Texts for which the answer is not dominant -/

namespace Binary64

/-- The exact value of a finite number. -/
noncomputable def real (x : Float) : ℝ :=
  ((if isNegative x then -magnitude x else magnitude x : ℚ) : ℝ)

theorem real_eq {x : Float} {q : ℚ} (h : (if isNegative x then -magnitude x else magnitude x) = q) :
    real x = q :=
  congrArg _ h

end Binary64

namespace Recurrence

/-- What the search makes of a text: the coefficients with how far they look back, the events and
the outcome. -/
def searched? (text : String) :
    Option (List (Float × Float) × Option (List (Event Float) × Root Float)) :=
  (parse text).toOption.map fun r =>
    ((ofRecurrence r).powers.map fun p => (p.coefficient, p.delta),
      r.dominantRoot.toOption.map fun search => (search.events, search.result))

theorem exists_of_searched? {text : String} {powers : List (Float × Float)}
    {events : List (Event Float)} {root : Root Float}
    (h : searched? text = some (powers, some (events, root))) :
    ∃ r, parse text = .ok r ∧ r.dominantRoot = .ok ⟨events, root⟩ ∧
      ∀ x, (ofRecurrence r).sum Binary64.real x =
        (powers.map fun p => Binary64.real p.1 * x ^ (-Binary64.real p.2)).sum := by
  unfold searched? at h
  cases hr : parse text with
  | error e => simp [hr, Except.toOption] at h
  | ok r =>
      cases hs : r.dominantRoot with
      | error e => simp [hr, hs, Except.toOption] at h
      | ok s =>
          simp only [hr, hs, Except.toOption, Option.map_some, Option.some.injEq,
            Prod.mk.injEq] at h
          obtain ⟨hpowers, hevents, hresult⟩ := h
          refine ⟨r, rfl, ?_, ?_⟩
          · rw [hs, ← hevents, ← hresult]
          · intro x
            rw [← hpowers]
            simp [sum, Function.comp_def]

/-- The solutions 2 and 3 are missed, and of the solutions 1 and 2 the lesser is reported. -/
theorem exists_parse_not_dominant :
    (∃ r, parse "T(n) = 5*T(n-1) - 6*T(n-2)" = .ok r ∧
      ¬r.Dominant Binary64.real fun root => root + 1e-6) ∧
    ∃ r, parse "T(n) = 3*T(n-1) - 2*T(n-2)" = .ok r ∧
      ¬r.Dominant Binary64.real fun root => root + 1e-6 := by
  have hone : Binary64.real 1.0 = 1 := by
    simpa using Binary64.real_eq (q := 1) (by decide +kernel)
  have htwo : Binary64.real 2.0 = 2 := by
    simpa using Binary64.real_eq (q := 2) (by decide +kernel)
  constructor
  · have hsearch : searched? "T(n) = 5*T(n-1) - 6*T(n-2)" =
        some ([(5.0, 1.0), (-6.0, 2.0)], some ([.finished .infeasible], .infeasible)) := by
      decide +kernel
    obtain ⟨r, hparse, hroot, hsum⟩ := exists_of_searched? hsearch
    refine ⟨r, hparse, fun hdominant => ?_⟩
    refine hdominant.infeasible _ hroot (by simp) 3 (by norm_num) ?_
    have hfive : Binary64.real 5.0 = 5 := by
      simpa using Binary64.real_eq (q := 5) (by decide +kernel)
    have hsix : Binary64.real (-6.0) = -6 := by
      simpa using Binary64.real_eq (q := -6) (by decide +kernel)
    rw [Solves, hsum]
    norm_num [hone, htwo, hfive, hsix, Real.rpow_neg]
  · have hsearch : searched? "T(n) = 3*T(n-1) - 2*T(n-2)" =
        some ([(3.0, 1.0), (-2.0, 2.0)], some ([.finished (.finite 1.0)], .finite 1.0)) := by
      decide +kernel
    obtain ⟨r, hparse, hroot, hsum⟩ := exists_of_searched? hsearch
    refine ⟨r, hparse, fun hdominant => ?_⟩
    refine hdominant.finite _ _ hroot 2 (by rw [hone]; norm_num) ?_
    have hthree : Binary64.real 3.0 = 3 := by
      simpa using Binary64.real_eq (q := 3) (by decide +kernel)
    have hnegative : Binary64.real (-2.0) = -2 := by
      simpa using Binary64.real_eq (q := -2) (by decide +kernel)
    rw [Solves, hsum]
    norm_num [hone, htwo, hthree, hnegative, Real.rpow_neg]

end Recurrence

end GrowthOrder
