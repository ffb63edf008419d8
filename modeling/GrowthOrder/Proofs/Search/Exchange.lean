import GrowthOrder.Proofs.Binary64.Order
import GrowthOrder.Proofs.Search.Dominance
import GrowthOrder.Proofs.Search.Outcome
import GrowthOrder.Proofs.Search.Run

/-!
# GrowthOrder.Proofs.Search.Exchange

Outcomes as bare numbers.  `Root.toNumber` and `Root.ofNumber` agree on every outcome of a search
but one kind: a root that is not below `infeasibleMark` is taken for no root, and its number is not
below that of no root either.  A search reports such roots, since its brackets go far beyond.

* `isNaN_of_isOutcome` — no search reports a NaN.
* `exchange_iff` — outcomes can be exchanged exactly if each root among them is below the mark.
-/

namespace GrowthOrder

open Binary64

/-! ## No search reports a NaN -/

/-- At a NaN a characteristic function is infinite. -/
theorem Characteristic.value_of_isNaN (g : Characteristic Float) {x : Float}
    (h : x.isNaN = true) : g.value x = infinity := by
  have hx : Scalar.isNaN x = true := h
  simp only [value, evaluate, hx, Bool.or_true, if_true]
  rfl

namespace Brent

/-- A sample at a NaN is no zero. -/
def Sample.Sound (p : Sample Float) : Prop :=
  p.isZero = true → p.x.isNaN = false

/-- All three points are sound. -/
structure State.Sound (s : State Float) : Prop where
  previous : s.previous.Sound
  current : s.current.Sound
  blocking : s.blocking.Sound

theorem sound_sample (g : Characteristic Float) (x : Float) : (sample g.value x).Sound := by
  intro hzero
  cases h : x.isNaN with
  | false => exact h
  | true =>
      have hinfinity : (infinity == (0.0 : Float)) = false := by decide +kernel
      rw [Sample.isZero, sample, g.value_of_isNaN h, hinfinity] at hzero
      exact absurd hzero Bool.false_ne_true

namespace State

variable {s : State Float} {o : Options Float}

theorem Sound.rebracket (h : s.Sound) : s.rebracket.Sound := by
  unfold State.rebracket
  split
  · exact ⟨h.previous, h.current, h.previous⟩
  · exact h

theorem Sound.orient (h : s.Sound) : s.orient.Sound := by
  unfold State.orient
  split
  · exact ⟨h.current, h.blocking, h.current⟩
  · exact h

theorem Sound.turn (h : s.Sound) (g : Characteristic Float) : (s.turn g.value o).Sound := by
  have horiented : s.oriented.Sound := h.rebracket.orient
  refine ⟨horiented.current, sound_sample g _, ?_⟩
  rw [blocking_turn]
  exact horiented.blocking

theorem Sound.after (h : s.Sound) (g : Characteristic Float) (n : Nat) :
    (s.after g.value o n).Sound := by
  induction n with
  | zero => exact h
  | succ n ih =>
      rw [after_succ]
      exact ih.turn g

/-- A search never stops at a NaN: its value is no zero, and its distance to nothing is short. -/
theorem Sound.isNaN_of_isDone (h : s.Sound) (hdone : s.isDone o = true) :
    s.current.x.isNaN = false := by
  rw [isDone, Bool.or_eq_true, decide_eq_true_eq] at hdone
  obtain hzero | hshort := hdone
  · exact h.current hzero
  · have hbisection := (isNaN_of_lt hshort).1
    rw [isNaN_abs] at hbisection
    cases hx : s.current.x.isNaN with
    | false => rfl
    | true =>
        rw [bisection, isNaN_div (isNaN_sub (.inr hx))] at hbisection
        exact absurd hbisection (by simp)

end State

theorem isNaN_of_search (g : Characteristic Float) {a b : Float} (o : Options Float) {x : Float}
    (hx : (search g.value a b o).result = .ok x) : x.isNaN = false := by
  have hstart : (start g.value a b).Sound :=
    ⟨sound_sample g a, sound_sample g b, fun _ => isNaN_of_isZero isZero_zero⟩
  cases course g.value a b o with
  | lower ha h =>
      obtain rfl : a = x := by simpa [h] using hx
      exact hstart.previous ha
  | upper ha hb h =>
      obtain rfl : b = x := by simpa [h] using hx
      exact hstart.current hb
  | refused ha hb hsame h => simp [h] at hx
  | run ha hb hopposite steps h =>
      rw [h.result] at hx
      split at hx
      · next hlt =>
        obtain rfl := Except.ok.inj hx
        exact (hstart.after g steps).rebracket.orient.isNaN_of_isDone (h.stops hlt)
      · simp at hx

end Brent

/-- Rounding to a whole number within a tolerance never makes a NaN. -/
theorem Scalar.isNaN_snap {x : Float} (hx : x.isNaN = false) (tolerance : Float) :
    (Scalar.snap x tolerance).isNaN = false := by
  unfold Scalar.snap
  split
  · exact hx
  · split
    · next hnear =>
      have hgap := (isNaN_of_le hnear).1
      rw [isNaN_abs] at hgap
      rw [(same_add_zero _ isZero_zero).isNaN]
      cases hround : (Scalar.round x).isNaN with
      | false => rfl
      | true =>
          rw [isNaN_sub (.inr hround)] at hgap
          exact absurd hgap (by simp)
    · exact hx

namespace Search

theorem isNaN_of_found {g : Characteristic Float} {upper tolerance r : Float}
    (h : Found g upper tolerance r) : r.isNaN = false := by
  cases h with
  | inside hx => exact Scalar.isNaN_snap (Brent.isNaN_of_search g _ hx) tolerance
  | accepted haccepts =>
      -- what is not below 1 is a number
      rw [accepts, Bool.and_eq_true, decide_eq_true_eq] at haccepts
      exact Scalar.isNaN_snap (isNaN_of_le haccepts.1).2 tolerance

theorem isNaN_of_ofCharacteristic {g : Characteristic Float} {r : Float}
    (h : (ofCharacteristic g).result = .finite r) : r.isNaN = false := by
  obtain rfl | ⟨upper, -, hfound⟩ := found_of_ofCharacteristic h
  · decide +kernel
  · exact isNaN_of_found hfound

theorem isNaN_of_ofDeltas {deltas : List Float} {guess : Option Float} {r : Float}
    (h : (ofDeltas deltas guess).result = .finite r) : r.isNaN = false := by
  obtain rfl | ⟨minDelta, upper, -, hfound⟩ := found_of_ofDeltas h
  · decide +kernel
  · exact isNaN_of_found hfound

end Search

/-! ## Exchange -/

namespace Root

/-- The outcomes of both searches. -/
inductive IsOutcome : Root Float → Prop
  | recurrence {r : Recurrence Float} {search : Recorded Float (Root Float)}
    (h : r.dominantRoot = .ok search) : IsOutcome search.result
  | deltas (deltas : List Float) (guess : Option Float) :
    IsOutcome (dominantRoot deltas guess).result

/-- **No search reports a NaN.** -/
theorem isNaN_of_isOutcome {r : Float} (h : (finite r).IsOutcome) : r.isNaN = false := by
  generalize hroot : finite r = root at h
  cases h with
  | recurrence h =>
      obtain ⟨-, rfl⟩ := Recurrence.dominantRoot_eq_ok_iff.1 h
      exact Search.isNaN_of_ofCharacteristic hroot.symm
  | deltas deltas guess => exact Search.isNaN_of_ofDeltas hroot.symm

/-- Outcomes can be exchanged as bare numbers: each is read back from its number, and the numbers
are in order, roots before no root before unbounded growth. -/
structure Exchange (roots : Set (Root Float)) : Prop where
  ofNumber_toNumber : ∀ root ∈ roots, ofNumber root.toNumber = root
  finite_lt : ∀ r, finite r ∈ roots → infeasible ∈ roots →
    (finite r).toNumber < (infeasible : Root Float).toNumber
  infeasible_lt : infeasible ∈ roots → divergent ∈ roots →
    (infeasible : Root Float).toNumber < (divergent : Root Float).toNumber

@[simp]
theorem toNumber_finite (r : Float) : (finite r).toNumber = r :=
  rfl

@[simp]
theorem toNumber_infeasible : (infeasible : Root Float).toNumber = infeasibleMark :=
  rfl

theorem ofNumber_eq_finite_iff {r : Float} (h : r.isNaN = false) :
    ofNumber r = finite r ↔ ¬(infeasibleMark : Float) ≤ r := by
  have hnan : Scalar.isNaN r = false := h
  unfold ofNumber
  split_ifs with hinfinity hmark
  · obtain rfl | ⟨-, hzero⟩ := ((beq_iff _ _).1 hinfinity).1
    · have hbelow : (infeasibleMark : Float) ≤ Scalar.infinity := by decide +kernel
      simpa using hbelow
    · exact absurd (Same.isFinite (.inr ⟨hzero, isZero_zero⟩)) (by decide +kernel)
  · simpa [hnan] using hmark
  · simpa [hnan] using hmark

/-- **Outcomes of searches can be exchanged exactly if each root among them is below the mark for
no root.** -/
theorem exchange_iff {roots : Set (Root Float)} (h : ∀ root ∈ roots, root.IsOutcome) :
    Exchange roots ↔ ∀ r, finite r ∈ roots → ¬(infeasibleMark : Float) ≤ r := by
  constructor
  · intro hexchange r hr
    have hread := hexchange.ofNumber_toNumber _ hr
    rw [toNumber_finite] at hread
    exact (ofNumber_eq_finite_iff (isNaN_of_isOutcome (h _ hr))).1 hread
  · intro hmark
    have hmark_number : (infeasibleMark : Float).isNaN = false := by decide +kernel
    refine ⟨fun root hroot => ?_, fun r hr _ => ?_, fun _ _ => by decide +kernel⟩
    · cases root with
      | finite r =>
          rw [toNumber_finite]
          exact (ofNumber_eq_finite_iff (isNaN_of_isOutcome (h _ hroot))).2 (hmark r hroot)
      | infeasible => decide +kernel
      | divergent => decide +kernel
    · rw [toNumber_finite, toNumber_infeasible]
      exact (lt_iff_not_le (isNaN_of_isOutcome (h _ hr)) hmark_number).2 (hmark r hr)

/-- The three kinds of outcomes, of searches that are over at once. -/
theorem exchange_iff_unprobed :
    let roots : Set (Root Float) := {(dominantRoot [] none).result,
      (dominantRoot [0.0, 1.0] none).result, (dominantRoot [5.0] none).result}
    (∀ root ∈ roots, root.IsOutcome) ∧
      (Exchange roots ↔ ∀ r, finite r ∈ roots → ¬(infeasibleMark : Float) ≤ r) := by
  have houtcome : ∀ root ∈ ({(dominantRoot [] none).result,
      (dominantRoot [0.0, 1.0] none).result, (dominantRoot [5.0] none).result} :
        Set (Root Float)), root.IsOutcome := by
    rintro _ (rfl | rfl | rfl)
    · exact .deltas _ _
    · exact .deltas _ _
    · exact .deltas _ _
  exact ⟨houtcome, exchange_iff houtcome⟩

end Root

/-! ## Roots beyond the mark -/

/-- The first power of two that closes a bracket ends the search for one. -/
theorem Bracket.doublingFrom_result {α : Type} [Scalar α] {g : Characteristic α}
    {remaining k m : Nat} (hm : m < remaining)
    (hcap : ∀ j ≤ m, ¬(cap : α) < Scalar.power 2.0 (k + j))
    (hopen : ∀ j < m, closes (g.value (Scalar.power 2.0 (k + j))) = false)
    (hclose : closes (g.value (Scalar.power 2.0 (k + m))) = true) :
    (doublingFrom g remaining k).result = some (Scalar.power 2.0 (k + m)) := by
  induction m generalizing remaining k with
  | zero =>
      obtain ⟨remaining, rfl⟩ := Nat.exists_eq_succ_of_ne_zero hm.ne'
      have hfirst := hcap 0 le_rfl
      simp_all [doublingFrom]
  | succ m ih =>
      obtain ⟨remaining, rfl⟩ := Nat.exists_eq_succ_of_ne_zero (Nat.ne_zero_of_lt hm)
      have hshift (j : Nat) : k + 1 + j = k + (j + 1) := by omega
      have hfirst := hcap 0 (Nat.zero_le _)
      have hnext := hopen 0 (Nat.succ_pos m)
      have hrest := @ih remaining (k + 1) (by omega)
        (fun j hj => by simpa only [hshift] using hcap (j + 1) (by omega))
        (fun j hj => by simpa only [hshift] using hopen (j + 1) (by omega))
        (by simpa only [hshift] using hclose)
      rw [Nat.add_zero] at hfirst hnext
      rw [doublingFrom, if_neg hfirst, hnext, ← hshift m]
      exact hrest

/-- In exact arithmetic a bracket is closed where the sum has come down to 1. -/
theorem Characteristic.closes_iff (g : Characteristic (Exact ℝ)) {b : Exact ℝ} (hb : 0 < b.val) :
    Bracket.closes (g.value b) = true ↔ g.sum Exact.val b.val ≤ 1 := by
  have hzero : (0.0 : ℝ) = 0 := by norm_num
  simp [Bracket.closes, Exact.le_iff, val_value g hb, hzero]

namespace Recurrence

open Characteristic Search

/-- `T(n) = c*T(n-1)`. -/
noncomputable def scaling (c : Exact ℝ) : Recurrence (Exact ℝ) :=
  ⟨⟨1.0, "T", ["n"], [0.0]⟩, [.call ⟨c, "T", ["n"], [-1.0]⟩]⟩

theorem powers_scaling (c : Exact ℝ) : (ofRecurrence (scaling c)).powers = [⟨c, -(-1.0)⟩] :=
  rfl

theorem sum_scaling (c : Exact ℝ) (x : ℝ) :
    (ofRecurrence (scaling c)).sum Exact.val x = c.val * x⁻¹ := by
  have hone : (1.0 : ℝ) = 1 := by norm_num
  simp [sum, powers_scaling, hone, Real.rpow_neg_one]

theorem val_value_scaling (c : Exact ℝ) {x : Exact ℝ} (hx : 0 < x.val) :
    ((ofRecurrence (scaling c)).value x).val = c.val / x.val - 1 := by
  rw [val_value _ hx, sum_scaling, div_eq_mul_inv]

theorem closes_scaling_iff (c : Exact ℝ) {x : Exact ℝ} (hx : 0 < x.val) :
    Bracket.closes ((ofRecurrence (scaling c)).value x) = true ↔ c.val ≤ x.val := by
  rw [closes_iff _ hx, sum_scaling, ← div_eq_mul_inv, div_le_one hx]

theorem val_power_two (k : Nat) : (Scalar.power (2.0 : Exact ℝ) k).val = 2 ^ k := by
  have htwo : (2.0 : ℝ) = 2 := by norm_num
  simp [htwo]

theorem byDoubling_scaling {k : Nat} (hk : 1 ≤ k) (hk' : k ≤ 39) :
    (Bracket.byDoubling (ofRecurrence (scaling ⟨2 ^ k⟩))).result =
      some (Scalar.power 2.0 k) := by
  have hpos (j : Nat) : 0 < (Scalar.power (2.0 : Exact ℝ) j).val := by
    rw [val_power_two]
    positivity
  obtain ⟨m, rfl⟩ := Nat.exists_eq_add_of_le hk
  refine Bracket.doublingFrom_result (by rw [Bracket.maxProbes]; omega) (fun j hj => ?_)
    (fun j hj => ?_) ?_
  · have hpower : (2 : ℝ) ^ (1 + j) ≤ 2 ^ 39 := pow_le_pow_right₀ one_le_two (by omega)
    rw [Exact.lt_iff, val_power_two, not_lt]
    norm_num [Bracket.cap] at hpower ⊢
    linarith
  · rw [← Bool.not_eq_true, closes_scaling_iff _ (hpos _), val_power_two, not_le]
    exact pow_lt_pow_right₀ one_lt_two (by omega)
  · rw [closes_scaling_iff _ (hpos _), val_power_two]

/-- Where the bracket ends at the root, it is the root. -/
theorem inBracket_scaling {c upper : Exact ℝ} (hc : 1 < c.val) (hupper : upper.val = c.val)
    (tolerance : Exact ℝ) :
    (inBracket (ofRecurrence (scaling c)) upper tolerance).result =
      .finite (Scalar.snap upper tolerance) := by
  have hstart : (Brent.sample (ofRecurrence (scaling c)).value 1.0).isZero = false := by
    rw [← Bool.not_eq_true, Brent.isZero_iff, Brent.sample, val_value_scaling _ (by norm_num)]
    norm_num
    linarith
  have hend : (Brent.sample (ofRecurrence (scaling c)).value upper).isZero = true := by
    rw [Brent.isZero_iff, Brent.sample, val_value_scaling _ (by linarith), hupper,
      div_self (by linarith), sub_self]
  simp [inBracket, Brent.search, Brent.start, hstart, hend, snap]

/-- A power of two up to the cap is found exactly as the root of `T(n) = c*T(n-1)`. -/
theorem dominantRoot_scaling {k : Nat} (hk : 1 ≤ k) (hk' : k ≤ 39) :
    ∃ search root, (scaling ⟨2 ^ k⟩).dominantRoot = .ok search ∧ search.result = .finite root ∧
      root.val = 2 ^ k := by
  have hpower : (2 : ℝ) ≤ 2 ^ k := by simpa using pow_le_pow_right₀ one_le_two hk
  have hdelay : ∀ p ∈ (ofRecurrence (scaling ⟨2 ^ k⟩)).powers, 1 ≤ p.delta.val := by
    norm_num [powers_scaling]
  have hpowers : (ofRecurrence (scaling ⟨2 ^ k⟩)).powers ≠ [] := by simp [powers_scaling]
  have hsum : (ofRecurrence (scaling ⟨2 ^ k⟩)).sum Exact.val 1 = 2 ^ k := by simp [sum_scaling]
  have hlarge : ¬|(2 : ℝ) ^ k - 1| ≤ 1e-12 := by
    rw [abs_of_nonneg (by linarith)]
    norm_num
    linarith
  refine ⟨_, Scalar.snap (Scalar.power 2.0 k) recurrenceTolerance, rfl, ?_, ?_⟩
  · change (ofCharacteristic _).result = _
    rw [ofCharacteristic_eq hdelay, if_neg hpowers, hsum, if_neg hlarge, if_neg (by linarith),
      bracketed, byDoubling_scaling hk hk']
    exact inBracket_scaling (c := ⟨2 ^ k⟩) (by simp only; linarith) (val_power_two k) _
  · have hnat : (Scalar.power (2.0 : Exact ℝ) k).val = (2 ^ k : ℕ) := by
      rw [val_power_two, Nat.cast_pow, Nat.cast_ofNat]
    rw [Exact.val_snap_natCast hnat _ (by norm_num [recurrenceTolerance]), Nat.cast_pow,
      Nat.cast_ofNat]

/-- The root of `T(n) = 1048576*T(n-1)` is reported, and taken for none when it is exchanged. -/
theorem exists_outcome_not_exchanged :
    ∃ search, (scaling ⟨2 ^ 20⟩).dominantRoot = .ok search ∧
      Root.ofNumber search.result.toNumber ≠ search.result ∧
      ¬search.result.toNumber < (Root.infeasible : Root (Exact ℝ)).toNumber := by
  obtain ⟨search, root, hsearch, hroot, hval⟩ :=
    dominantRoot_scaling (k := 20) (by norm_num) (by norm_num)
  have hmark : (Root.infeasibleMark : Exact ℝ) ≤ root := by
    rw [Exact.le_iff, hval]
    norm_num [Root.infeasibleMark]
  have hinfinity : ¬(root == Scalar.infinity) = true := by
    rw [Exact.beq_iff, hval]
    norm_num
  refine ⟨search, hsearch, ?_, ?_⟩
  · rw [hroot, Root.toNumber, Root.ofNumber]
    simp [hinfinity, hmark]
  · rw [hroot, Root.toNumber, Root.toNumber, Exact.lt_iff, not_lt]
    exact hmark

end Recurrence

end GrowthOrder
