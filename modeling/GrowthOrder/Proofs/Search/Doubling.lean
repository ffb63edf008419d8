import GrowthOrder.Proofs.Binary64.Positive
import GrowthOrder.Proofs.Search.Exchange
import GrowthOrder.Proofs.Search.History

/-!
# GrowthOrder.Proofs.Search.Doubling

How far the search by doubling reaches.  It tries the powers of two up to the cap and no other
number, so that it reaches as far as the greatest of them, `2 ^ 39`, and not as far as the cap: a
root in between gets no bracket.

* `byDoubling_result` — the search finds the first of the powers that closes a bracket.
* `brackets_iff` — with positive coefficients there is a bracket exactly if one of the powers closes
  it, and in exact arithmetic exactly if there is a root up to `2 ^ 39`.
-/

namespace GrowthOrder

open Binary64 Characteristic Search

/-! ## The powers that are tried -/

namespace Bracket

variable {α : Type} [Scalar α]

/-- The powers of two from 2 on, up to the cap. -/
def powers : List α :=
  ((List.range' 1 maxProbes).map (Scalar.power 2.0)).takeWhile fun b => !decide (cap < b)

theorem doublingFrom_eq_find? (g : Characteristic α) (remaining k : Nat) :
    (doublingFrom g remaining k).result =
      (((List.range' k remaining).map (Scalar.power 2.0)).takeWhile
        fun b => !decide (cap < b)).find? fun b => closes (g.value b) := by
  induction remaining generalizing k with
  | zero => rfl
  | succ remaining ih =>
      rw [doublingFrom, List.range'_succ, List.map_cons, List.takeWhile_cons]
      by_cases hcap : (cap : α) < Scalar.power 2.0 k
      · simp [hcap]
      · cases hclose : closes (g.value (Scalar.power 2.0 k)) with
        | true => simp [hcap, hclose]
        | false => simpa [hcap, hclose] using ih (k + 1)

/-- **The search finds the first of the powers that closes a bracket.** -/
theorem byDoubling_result (g : Characteristic α) :
    (byDoubling g).result = powers.find? fun b => closes (g.value b) :=
  doublingFrom_eq_find? g maxProbes 1

theorem powers_float :
    (powers : List Float) = (List.range' 1 39).map fun k => Float.ofNat (2 ^ k) := by
  decide +kernel

theorem powers_exact :
    (powers : List (Exact ℝ)) = (List.range' 1 39).map (Scalar.power 2.0) := by
  have hsplit : List.range' 1 maxProbes = List.range' 1 39 ++ 40 :: List.range' 41 10 := by decide
  have hlow : ∀ b ∈ (List.range' 1 39).map (Scalar.power (2.0 : Exact ℝ)),
      (!decide ((cap : Exact ℝ) < b)) = true := by
    intro b hb
    obtain ⟨k, hk, rfl⟩ := List.mem_map.1 hb
    have hpower : (2 : ℝ) ^ k ≤ 2 ^ 39 :=
      pow_le_pow_right₀ one_le_two (by have := List.mem_range'_1.1 hk; omega)
    rw [Bool.not_eq_true', decide_eq_false_iff_not, Exact.lt_iff, Recurrence.val_power_two, not_lt]
    refine hpower.trans ?_
    norm_num [cap]
  have hhigh : (cap : Exact ℝ) < Scalar.power 2.0 40 := by
    rw [Exact.lt_iff, Recurrence.val_power_two]
    norm_num [cap]
  rw [powers, hsplit, List.map_append, List.takeWhile_append_of_pos hlow, List.map_cons,
    List.takeWhile_cons_of_neg (by simp [hhigh]), List.append_nil]

end Bracket

/-! ## Brackets of recurrences -/

namespace Recurrence

variable {α : Type} [Scalar α]

/-- The search for the root comes to the bracket `[1, upper]`. -/
def Brackets (r : Recurrence α) (upper : α) : Prop :=
  ∃ search, r.dominantRoot = .ok search ∧ .bracket 1.0 upper ∈ search.events

/-- One variable, positive coefficients and deltas, and a value at 1 that counts as positive. -/
structure IsGrowing (r : Recurrence α) : Prop where
  parameters : r.parameters.length = 1
  positive : ∀ p ∈ (ofRecurrence r).powers, 0.0 < p.coefficient ∧ 0.0 < p.delta
  growing : cancellation < (ofRecurrence r).atOne

/-- Where no check settles the root, there is a bracket if the search by doubling finds one. -/
theorem brackets_iff_of_checks {r : Recurrence α} (hr : r.parameters.length = 1)
    (hpowers : (ofRecurrence r).isEmpty = false)
    (hdeltas : ∀ p ∈ (ofRecurrence r).powers, ¬p.delta ≤ 0.0)
    (hsettled : ¬Scalar.abs (ofRecurrence r).atOne ≤ cancellation)
    (hsmall : ¬(ofRecurrence r).atOne < 0.0) (upper : α) :
    r.Brackets upper ↔ (Bracket.byDoubling (ofRecurrence r)).result = some upper := by
  have hany : ((ofRecurrence r).deltas.any fun d => decide (d ≤ (0.0 : α))) = false := by
    simpa [deltas] using hdeltas
  obtain ⟨probes, hsearch, -⟩ :=
    Bracket.exists_doublingFrom (ofRecurrence r) Bracket.maxProbes 1
  obtain ⟨s, hs, -, -, hupper⟩ := exists_bracketed hsearch fun upper =>
    exists_cold (ofRecurrence r) upper recurrenceTolerance
  have hrecorded : r.dominantRoot = .ok s.recorded := by
    rw [dominantRoot, if_pos hr, ofCharacteristic, hpowers, hany, if_neg (by simp),
      if_neg (by simp), if_neg hsettled, if_neg hsmall, ← hs]
    rfl
  have hresult : s.upper? = (Bracket.byDoubling (ofRecurrence r)).result := hupper
  rw [← hresult, Brackets, hrecorded]
  simp [Stages.recorded, Stages.bracket_mem_events]

/-- There is one exactly if some power closes a bracket. -/
theorem exists_byDoubling_iff (g : Characteristic α) :
    (∃ upper, (Bracket.byDoubling g).result = some upper) ↔
      ∃ b ∈ Bracket.powers, Bracket.closes (g.value b) = true := by
  rw [← Option.isSome_iff_exists, Bracket.byDoubling_result, List.find?_isSome]

/-! ## On binary64 -/

theorem IsGrowing.exists_brackets_iff {r : Recurrence Float} (h : r.IsGrowing) :
    (∃ upper, r.Brackets upper) ↔ ∃ k, 1 ≤ k ∧ k ≤ 39 ∧
      Bracket.closes ((ofRecurrence r).value (Float.ofNat (2 ^ k))) = true := by
  have hatOne : 0.0 < (ofRecurrence r).atOne := pos_of_lt (by decide +kernel) h.growing
  have hpowers : (ofRecurrence r).isEmpty = false := by
    rw [Bool.eq_false_iff]
    intro hempty
    have hnone : (ofRecurrence r).powers = [] := List.isEmpty_iff.1 hempty
    have hbelow : ¬(cancellation : Float) < 0.0 - 1.0 := by decide +kernel
    have habove := h.growing
    rw [atOne, coefficients, hnone] at habove
    exact hbelow habove
  have hiff := brackets_iff_of_checks h.parameters hpowers
    (fun p hp => not_le_of_lt (h.positive p hp).2)
    (by rw [abs_of_pos hatOne]; exact not_le_of_lt h.growing) (not_lt_of_lt hatOne)
  simp only [hiff, exists_byDoubling_iff, Bracket.powers_float, List.mem_map, List.mem_range'_1]
  constructor
  · rintro ⟨_, ⟨k, hk, rfl⟩, hclose⟩
    exact ⟨k, hk.1, by omega, hclose⟩
  · rintro ⟨k, hk, hk', hclose⟩
    exact ⟨_, ⟨k, ⟨hk, by omega⟩, rfl⟩, hclose⟩

/-! ## In exact arithmetic -/

/-- With positive coefficients and deltas the sum of the powers falls. -/
theorem sum_anti {g : Characteristic (Exact ℝ)}
    (h : ∀ p ∈ g.powers, 0 < p.coefficient.val ∧ 0 < p.delta.val) {x y : ℝ} (hx : 0 < x)
    (hxy : x ≤ y) : g.sum Exact.val y ≤ g.sum Exact.val x := by
  apply List.sum_le_sum
  intro p hp
  obtain ⟨hcoefficient, hdelta⟩ := h p hp
  have hfall := Real.rpow_le_rpow_of_nonpos hx hxy (neg_nonpos.2 hdelta.le)
  exact mul_le_mul_of_nonneg_left hfall hcoefficient.le

/-- If the sum is more than 1 at 1, it comes down to 1 up to a point exactly if it is at most 1
there. -/
theorem exists_solution_iff {g : Characteristic (Exact ℝ)}
    (h : ∀ p ∈ g.powers, 0 < p.coefficient.val ∧ 0 < p.delta.val) (hone : 1 < g.sum Exact.val 1)
    {b : ℝ} (hb : 1 ≤ b) :
    (∃ x, 1 ≤ x ∧ x ≤ b ∧ g.sum Exact.val x = 1) ↔ g.sum Exact.val b ≤ 1 := by
  constructor
  · rintro ⟨x, hx, hxb, hsolution⟩
    exact (sum_anti h (one_pos.trans_le hx) hxb).trans_eq hsolution
  · intro hend
    have hcontinuous : ContinuousOn (g.sum Exact.val) (Set.Icc 1 b) :=
      (continuousOn_sum Exact.val g).mono fun x hx => one_pos.trans_le hx.1
    obtain ⟨x, hx, hsolution⟩ := intermediate_value_Icc' hb hcontinuous ⟨hend, hone.le⟩
    exact ⟨x, hx.1, hx.2, hsolution⟩

theorem IsGrowing.exists_brackets_iff_solves {r : Recurrence (Exact ℝ)} (h : r.IsGrowing) :
    (∃ upper, r.Brackets upper) ↔ ∃ x, 1 ≤ x ∧ x ≤ 2 ^ 39 ∧ r.Solves Exact.val x := by
  have hzero : (0.0 : ℝ) = 0 := by norm_num
  have hpositive : ∀ p ∈ (ofRecurrence r).powers, 0 < p.coefficient.val ∧ 0 < p.delta.val := by
    simpa [Exact.lt_iff, hzero] using h.positive
  have hatOne : 1e-12 < (ofRecurrence r).sum Exact.val 1 - 1 := by
    have := h.growing
    rwa [Exact.lt_iff, val_atOne] at this
  have hone : 1 < (ofRecurrence r).sum Exact.val 1 := by
    norm_num at hatOne
    linarith
  have hpowers : (ofRecurrence r).isEmpty = false := by
    rw [Bool.eq_false_iff]
    intro hempty
    have hnone : (ofRecurrence r).powers = [] := List.isEmpty_iff.1 hempty
    norm_num [Characteristic.sum, hnone] at hone
  have hiff := brackets_iff_of_checks h.parameters hpowers
    (fun p hp => by rw [Exact.le_iff, not_le]; simpa [hzero] using (hpositive p hp).2)
    (by
      rw [Exact.le_iff, Exact.val_abs, val_atOne, not_le]
      exact hatOne.trans_le (le_abs_self _))
    (by
      rw [Exact.lt_iff, val_atOne, not_lt, Exact.val_ofScientific, hzero]
      linarith)
  have hpower (k : Nat) : (1 : ℝ) ≤ 2 ^ k := one_le_pow₀ one_le_two
  have hpos (k : Nat) : 0 < (Scalar.power (2.0 : Exact ℝ) k).val := by
    rw [val_power_two]
    positivity
  simp only [hiff, exists_byDoubling_iff, Bracket.powers_exact, List.mem_map, List.mem_range'_1,
    Solves]
  constructor
  · rintro ⟨_, ⟨k, hk, rfl⟩, hclose⟩
    rw [closes_iff _ (hpos k), val_power_two, ← exists_solution_iff hpositive hone (hpower k)]
      at hclose
    obtain ⟨x, hx, hxk, hsolution⟩ := hclose
    exact ⟨x, hx, hxk.trans (pow_le_pow_right₀ one_le_two (by omega)), hsolution⟩
  · intro hsolution
    rw [exists_solution_iff hpositive hone (hpower 39)] at hsolution
    refine ⟨_, ⟨39, by omega, rfl⟩, ?_⟩
    rwa [closes_iff _ (hpos 39), val_power_two]

/-- **How far the search for a bracket reaches.**  With positive coefficients and deltas, and a
value at 1 that counts as positive, the search comes to a bracket exactly if the value at some power
of two up to `2 ^ 39` is finite and not positive.  In exact arithmetic this is so exactly if there
is a root up to `2 ^ 39`. -/
theorem brackets_iff :
    (∀ r : Recurrence Float, r.IsGrowing →
      ((∃ upper, r.Brackets upper) ↔ ∃ k, 1 ≤ k ∧ k ≤ 39 ∧
        Bracket.closes ((ofRecurrence r).value (Float.ofNat (2 ^ k))) = true)) ∧
    ∀ r : Recurrence (Exact ℝ), r.IsGrowing →
      ((∃ upper, r.Brackets upper) ↔ ∃ x, 1 ≤ x ∧ x ≤ 2 ^ 39 ∧ r.Solves Exact.val x) :=
  ⟨fun _ h => h.exists_brackets_iff, fun _ h => h.exists_brackets_iff_solves⟩

theorem isGrowing_scaling {c : ℝ} (hc : 2 ≤ c) : (scaling ⟨c⟩).IsGrowing := by
  have hsum : (ofRecurrence (scaling ⟨c⟩)).sum Exact.val 1 = c := by simp [sum_scaling]
  refine ⟨rfl, ?_, ?_⟩
  · norm_num [powers_scaling, Exact.lt_iff]
    linarith
  · rw [Exact.lt_iff, val_atOne, hsum]
    norm_num [cancellation]
    linarith

/-- `T(n) = 2*T(n-1)` has the root 2, hence a bracket. -/
theorem brackets_iff_doubling :
    let r : Recurrence Float :=
      ⟨⟨1.0, "T", ["n"], [0.0]⟩, [.call ⟨2.0, "T", ["n"], [-1.0]⟩]⟩
    (r.IsGrowing ∧
      ((∃ upper, r.Brackets upper) ↔ ∃ k, 1 ≤ k ∧ k ≤ 39 ∧
        Bracket.closes ((ofRecurrence r).value (Float.ofNat (2 ^ k))) = true)) ∧
    (scaling ⟨2⟩).IsGrowing ∧ ∃ upper, (scaling ⟨2⟩).Brackets upper := by
  have hgrowing : Recurrence.IsGrowing
      (⟨⟨1.0, "T", ["n"], [0.0]⟩, [.call ⟨2.0, "T", ["n"], [-1.0]⟩]⟩ : Recurrence Float) :=
    ⟨rfl, by decide +kernel, by decide +kernel⟩
  refine ⟨⟨hgrowing, brackets_iff.1 _ hgrowing⟩, isGrowing_scaling le_rfl,
    (brackets_iff.2 _ (isGrowing_scaling le_rfl)).2 ⟨2, one_le_two, by norm_num, ?_⟩⟩
  rw [Solves, sum_scaling]
  norm_num

/-- The root of `T(n) = 600000000000*T(n-1)` is below the cap, and has no bracket. -/
theorem exists_unbracketed_below_cap :
    ¬∀ r : Recurrence (Exact ℝ), r.IsGrowing →
      Bracket.closes ((ofRecurrence r).value Bracket.cap) = true → ∃ upper, r.Brackets upper := by
  intro h
  have hgrowing : (scaling ⟨600000000000⟩).IsGrowing := isGrowing_scaling (by norm_num)
  have hclose : Bracket.closes
      ((ofRecurrence (scaling ⟨600000000000⟩)).value Bracket.cap) = true := by
    rw [closes_scaling_iff _ (by norm_num [Bracket.cap])]
    norm_num [Bracket.cap]
  obtain ⟨x, hx, hx', hsolution⟩ := hgrowing.exists_brackets_iff_solves.1 (h _ hgrowing hclose)
  rw [Solves, sum_scaling, ← div_eq_mul_inv, div_eq_one_iff_eq (by linarith)] at hsolution
  norm_num [← hsolution] at hx'

end Recurrence

end GrowthOrder
