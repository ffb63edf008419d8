import GrowthOrder.Proofs.Search.Crossing
import GrowthOrder.Proofs.Search.Newton
import GrowthOrder.Proofs.Search.Protocol
import GrowthOrder.Search.WarmCache

/-!
# GrowthOrder.Proofs.Search.WarmStart

When a hint is advisory: the search from a hint ends as the search without one does.

A hint that is not finite, that Newton's method gets nowhere from, or that leads it out of the
bracket changes nothing.  Otherwise the point that Newton's method stopped at is reported, and as
it stopped for the shortness of its last step, that need not be near the root.
-/

namespace GrowthOrder

open Characteristic Search Stages

/-! ## Agreement -/

namespace Root

variable {α : Type} [Scalar α]

/-- Two outcomes agree: they are of one kind, and two roots are equal or nearly so. -/
def Agree : Root α → Root α → Prop
  | finite r, finite s => r = s ∨ Scalar.abs (r - s) ≤ 1e-6
  | infeasible, infeasible => True
  | divergent, divergent => True
  | _, _ => False

theorem Agree.refl (root : Root α) : root.Agree root := by
  cases root with
  | finite r => exact .inl rfl
  | infeasible => trivial
  | divergent => trivial

theorem finite_agree_iff {r : α} {root : Root α} :
    (finite r).Agree root ↔ ∃ s, root = .finite s ∧ (r = s ∨ Scalar.abs (r - s) ≤ 1e-6) := by
  cases root with
  | finite s => simp [Agree]
  | infeasible => simp [Agree]
  | divergent => simp [Agree]

end Root

/-! ## The outcome from a hint -/

namespace Search

variable {α : Type} [Scalar α]

/-- The upper end of the bracket for some deltas, if the search gets as far as a bracket. -/
def bracket? (deltas : List α) : Option α :=
  let g := Characteristic.unit deltas
  match g.size, g.minDelta? with
  | 0, _ => none
  | _, none => none
  | 1, _ => none
  | _, some minDelta =>
    if minDelta ≤ 0.0 then none else (Bracket.fromBound g minDelta).result

/-- Where Newton's method ends in the bracket `[1, upper]`, if it is not rejected. -/
def newtonRoot? (g : Characteristic α) (upper hint : α) : Option α :=
  match (Newton.search g.evaluate (Scalar.clamp hint 1.0 upper) .standard).result with
  | .error _ => none
  | .ok x => if accepts upper x then some x else none

theorem newtonRoot?_eq_some_iff {g : Characteristic α} {upper hint x : α} :
    newtonRoot? g upper hint = some x ↔
      (Newton.search g.evaluate (Scalar.clamp hint 1.0 upper) .standard).result = .ok x ∧
        accepts upper x = true := by
  unfold newtonRoot?
  cases (Newton.search g.evaluate (Scalar.clamp hint 1.0 upper) .standard).result with
  | error e => simp
  | ok y =>
      simp only [Option.ite_none_right_eq_some, Option.some.injEq, Except.ok.injEq]
      constructor
      · rintro ⟨haccepts, rfl⟩
        exact ⟨rfl, haccepts⟩
      · rintro ⟨rfl, haccepts⟩
        exact ⟨haccepts, rfl⟩

theorem fromGuess_result (g : Characteristic α) (upper hint : α) :
    (fromGuess g upper hint).result =
      match newtonRoot? g upper hint with
      | some x => .finite (Scalar.snap x deltaTolerance)
      | none => (inBracket g upper deltaTolerance).result := by
  simp only [fromGuess, newtonRoot?]
  cases (Newton.search g.evaluate (Scalar.clamp hint 1.0 upper) .standard).result with
  | error e => rfl
  | ok x =>
      by_cases h : accepts upper x = true
      · simp [h, snap]
      · simp [h]

/-- How a search for some deltas goes up to its bracket, whatever the hint. -/
inductive Approach (deltas : List α) : Prop
  | unbracketed (probes : List (α × α)) (outcome : Root α) (hbracket : bracket? deltas = none)
    (h : ∀ guess, ofDeltas deltas guess = ⟨probeEvents probes, outcome⟩)
  | bracketed (probes : List (α × α)) (upper : α) (hbracket : bracket? deltas = some upper)
    (h : ∀ guess, ofDeltas deltas guess =
      ⟨probeEvents probes ++
          .bracket 1.0 upper :: (withGuess (Characteristic.unit deltas) guess upper).events,
        (withGuess (Characteristic.unit deltas) guess upper).result⟩)

/-- Several deltas have the bracket from the bound for their least one, if that is positive. -/
theorem bracket?_of_length {deltas : List α} {m : α} (h : 2 ≤ deltas.length)
    (hmin : (Characteristic.unit deltas).minDelta? = some m) :
    bracket? deltas =
      if m ≤ 0.0 then none else (Bracket.fromBound (Characteristic.unit deltas) m).result := by
  have hsize : (Characteristic.unit deltas).size = deltas.length - 2 + 2 := by
    simp only [Characteristic.size, Characteristic.unit, List.length_map]
    omega
  simp only [bracket?, hsize, hmin]

theorem approach (deltas : List α) : Approach deltas := by
  match deltas with
  | [] => exact .unbracketed [] .divergent rfl fun _ => rfl
  | [d] => exact .unbracketed [] (.finite 1.0) rfl fun _ => rfl
  | d :: d' :: ds =>
      have hlength : 2 ≤ (d :: d' :: ds).length := by simp
      obtain ⟨m, hmin⟩ := exists_minDelta hlength
      have hsearch := fun guess => ofDeltas_of_length guess hlength hmin
      have hbracket := bracket?_of_length hlength hmin
      by_cases hm : m ≤ 0.0
      · rw [if_pos hm] at hbracket
        exact .unbracketed [] .infeasible hbracket fun guess => by rw [hsearch, if_pos hm]; rfl
      · obtain ⟨probes, hprobes, -⟩ := Bracket.exists_stretchFrom
          (Characteristic.unit (d :: d' :: ds)) Bracket.maxDoublings
          (Bracket.bound (Characteristic.unit (d :: d' :: ds)).size m)
        have hprobes : (Bracket.fromBound (Characteristic.unit (d :: d' :: ds)) m).events =
            probeEvents probes := hprobes.events
        rw [if_neg hm] at hbracket
        cases hupper : (Bracket.fromBound (Characteristic.unit (d :: d' :: ds)) m).result with
        | none =>
            refine .unbracketed probes .infeasible (hbracket.trans hupper) fun guess => ?_
            rw [hsearch, if_neg hm, bracketed, hupper, hprobes]
        | some upper =>
            refine .bracketed probes upper (hbracket.trans hupper) fun guess => ?_
            rw [hsearch, if_neg hm, bracketed, hupper, hprobes]

/-- Up to the bracket a hint plays no part. -/
theorem ofDeltas_result (deltas : List α) (guess : Option α) :
    (ofDeltas deltas guess).result =
      match bracket? deltas with
      | some upper => (withGuess (Characteristic.unit deltas) guess upper).result
      | none => (ofDeltas deltas none).result := by
  cases approach deltas with
  | unbracketed probes outcome hbracket h => rw [hbracket, h, h]
  | bracketed probes upper hbracket h => rw [hbracket, h]

/-- The point that is reported for a hint, if there is a bracket, the hint is finite, and Newton's
method does not get rejected. -/
def adopted? (deltas : List α) (guess : Option α) : Option α :=
  (bracket? deltas).bind fun upper =>
    (guess.filter fun x => Scalar.isFinite x).bind fun hint =>
      newtonRoot? (Characteristic.unit deltas) upper hint

theorem adopted?_eq_some_iff {deltas : List α} {guess : Option α} {x : α} :
    adopted? deltas guess = some x ↔
      ∃ upper hint, bracket? deltas = some upper ∧ guess = some hint ∧
        Scalar.isFinite hint = true ∧
        (Newton.search (Characteristic.unit deltas).evaluate
          (Scalar.clamp hint 1.0 upper) .standard).result = .ok x ∧
        accepts upper x = true := by
  simp only [adopted?, Option.bind_eq_some_iff, Option.filter_eq_some_iff,
    newtonRoot?_eq_some_iff]
  constructor
  · intro ⟨upper, hbracket, hint, ⟨hguess, hfinite⟩, hnewton, haccepts⟩
    exact ⟨upper, hint, hbracket, hguess, hfinite, hnewton, haccepts⟩
  · intro ⟨upper, hint, hbracket, hguess, hfinite, hnewton, haccepts⟩
    exact ⟨upper, hbracket, hint, ⟨hguess, hfinite⟩, hnewton, haccepts⟩

/-- Without a hint the root is searched for in the bracket. -/
theorem dominantRoot_none_result {deltas : List α} {upper : α} (h : bracket? deltas = some upper) :
    (dominantRoot deltas none).result =
      (inBracket (Characteristic.unit deltas) upper deltaTolerance).result := by
  change (ofDeltas deltas none).result = _
  rw [ofDeltas_result, h]
  rfl

/-- **A hint matters only where it is adopted.** -/
theorem dominantRoot_result (deltas : List α) (guess : Option α) :
    (dominantRoot deltas guess).result =
      match adopted? deltas guess with
      | some x => .finite (Scalar.snap x deltaTolerance)
      | none => (dominantRoot deltas none).result := by
  change (ofDeltas deltas guess).result = _
  rw [ofDeltas_result, adopted?]
  cases hbracket : bracket? deltas with
  | none => rfl
  | some upper =>
      rw [dominantRoot_none_result hbracket]
      unfold withGuess
      cases guess.filter fun x => Scalar.isFinite x with
      | none => rfl
      | some hint => exact fromGuess_result _ upper hint

end Search

/-- **When a hint is advisory**: exactly if, where Newton's method from the hint stops in the
bracket, Brent's method in the same bracket ends next to that point.  All other hints change
nothing. -/
theorem dominantRoot_agree_iff {α : Type} [Scalar α] (deltas : List α) (guess : Option α) :
    (dominantRoot deltas guess).result.Agree (dominantRoot deltas none).result ↔
      ∀ upper hint x, bracket? deltas = some upper → guess = some hint →
        Scalar.isFinite hint = true →
        (Newton.search (Characteristic.unit deltas).evaluate
          (Scalar.clamp hint 1.0 upper) .standard).result = .ok x →
        accepts upper x = true →
        ∃ r, (inBracket (Characteristic.unit deltas) upper deltaTolerance).result = .finite r ∧
          (Scalar.snap x deltaTolerance = r ∨
            Scalar.abs (Scalar.snap x deltaTolerance - r) ≤ 1e-6) := by
  rw [dominantRoot_result deltas guess]
  constructor
  · intro hagree upper hint x hbracket hguess hfinite hnewton haccepts
    have hadopted : adopted? deltas guess = some x :=
      adopted?_eq_some_iff.2 ⟨upper, hint, hbracket, hguess, hfinite, hnewton, haccepts⟩
    rw [hadopted, dominantRoot_none_result hbracket] at hagree
    exact Root.finite_agree_iff.1 hagree
  · intro hpoint
    cases hadopted : adopted? deltas guess with
    | none => exact Root.Agree.refl _
    | some x =>
        obtain ⟨upper, hint, hbracket, hguess, hfinite, hnewton, haccepts⟩ :=
          adopted?_eq_some_iff.1 hadopted
        rw [dominantRoot_none_result hbracket]
        exact Root.finite_agree_iff.2 (hpoint upper hint x hbracket hguess hfinite hnewton haccepts)

/-! ## A hint that leads astray -/

/-- One very steep power and two shallow ones.  The root is 2, but from 1 a step along the steep
power is short. -/
noncomputable def steepAndShallow : List (Exact ℝ) :=
  [1e9, 1.0, 1.0]

theorem sum_steepAndShallow (x : ℝ) :
    (Characteristic.unit steepAndShallow).sum Exact.val x =
      x ^ (-(1e9 : ℝ)) + (x ^ (-(1 : ℝ)) + x ^ (-(1 : ℝ))) := by
  have hone : (1.0 : ℝ) = 1 := by norm_num
  simp [sum_unit, steepAndShallow, hone]

/-- The bound for three powers is a little more than 3. -/
theorem bound_steepAndShallow : (Bracket.bound 3 (1.0 : Exact ℝ)).val = 3.03 := by
  have hsmall : ¬(Scalar.ln (Bracket.cap / Bracket.slack)
      ≤ (Scalar.ln (Scalar.ofNat 3) / 1.0 : Exact ℝ)) := by
    have hlog : Real.log 3 < Real.log (1e12 / 1.01) :=
      Real.log_lt_log (by norm_num) (by norm_num)
    rw [Exact.le_iff, not_le]
    norm_num [ExpLog.ln, Bracket.cap, Bracket.slack] at hlog ⊢
    exact hlog
  have hthree : (Scalar.exp (Scalar.ln (Scalar.ofNat 3) / 1.0) : Exact ℝ).val = 3 := by
    have : Real.exp (Real.log 3) = 3 := Real.exp_log (by norm_num)
    norm_num [ExpLog.ln, ExpLog.exp, this]
  have hslack : (Bracket.slack : Exact ℝ).val = 1.01 := rfl
  simp only [Bracket.bound, Exact.isFinite_eq, Bool.not_true, Bool.false_or,
    decide_eq_false hsmall, Bool.false_eq_true, if_false, Exact.val_max, Exact.val_mul, hthree,
    hslack]
  norm_num

theorem bracket?_steepAndShallow :
    bracket? steepAndShallow = some (Bracket.bound 3 (1.0 : Exact ℝ)) := by
  have hsize : (Characteristic.unit steepAndShallow).size = 3 := rfl
  have hmin : (Characteristic.unit steepAndShallow).minDelta? = some 1.0 := by
    have hleast : (Scalar.min (Scalar.min 1e9 1.0) 1.0 : Exact ℝ) = 1.0 := by
      ext
      norm_num
    exact congrArg some hleast
  have hpositive : ¬(1.0 : Exact ℝ) ≤ 0.0 := by
    rw [Exact.le_iff]
    norm_num
  have hvalue :
      ((Characteristic.unit steepAndShallow).value (Bracket.bound 3 1.0)).val ≤ 0 := by
    have hsteep : (3.03 : ℝ) ^ (-(1e9 : ℝ)) ≤ 3.03 ^ (-(1 : ℝ)) :=
      Real.rpow_le_rpow_of_exponent_le (by norm_num) (by norm_num)
    rw [val_value _ (by rw [bound_steepAndShallow]; norm_num), sum_steepAndShallow,
      bound_steepAndShallow]
    generalize (3.03 : ℝ) ^ (-(1e9 : ℝ)) = steep at *
    rw [Real.rpow_neg_one] at hsteep ⊢
    norm_num at hsteep ⊢
    linarith
  have hcloses : Bracket.closes
      ((Characteristic.unit steepAndShallow).value (Bracket.bound 3 1.0)) = true := by
    simp only [Bracket.closes, Exact.isFinite_eq, Bool.true_and, decide_eq_true_iff, Exact.le_iff]
    norm_num
    exact hvalue
  simp only [bracket?, hsize, hmin, hpositive, if_false, Bracket.fromBound, Bracket.maxDoublings,
    Bracket.stretchFrom, hcloses, if_true]

/-- From 1 a single step is short enough. -/
theorem newton_steepAndShallow :
    ∃ x, (Newton.search (Characteristic.unit steepAndShallow).evaluate 1.0 .standard).result =
      .ok x ∧ x.val = 1 + 2 / (1e9 + 2) := by
  have hpos : 0 < (1.0 : Exact ℝ).val := by norm_num
  have hvalue : ((Characteristic.unit steepAndShallow).evaluate 1.0).1.val = 2 := by
    have := val_value (Characteristic.unit steepAndShallow) hpos
    rw [sum_steepAndShallow] at this
    norm_num at this
    exact this
  have hslope : ((Characteristic.unit steepAndShallow).evaluate 1.0).2.val = -(1e9 + 2) := by
    rw [val_slope_unit _ hpos]
    norm_num [steepAndShallow]
  obtain ⟨next, hstep⟩ : ∃ next, 1.0 - ((Characteristic.unit steepAndShallow).evaluate 1.0).1 /
    ((Characteristic.unit steepAndShallow).evaluate 1.0).2 = next := ⟨_, rfl⟩
  have hnext : next.val = 1 + 2 / (1e9 + 2) := by
    rw [← hstep, Exact.val_sub, Exact.val_div, hvalue, hslope]
    norm_num
  have hmoving :
      ¬(((Characteristic.unit steepAndShallow).evaluate 1.0).1 == (0.0 : Exact ℝ)) = true := by
    rw [Exact.beq_iff, hvalue]
    norm_num
  have hfalling :
      ¬(((Characteristic.unit steepAndShallow).evaluate 1.0).2 == (0.0 : Exact ℝ)) = true := by
    rw [Exact.beq_iff, hslope]
    norm_num
  have hshort : Scalar.abs (next - 1.0)
      < (Newton.Options.standard : Newton.Options (Exact ℝ)).tolerance := by
    rw [Exact.lt_iff, Exact.val_abs, Exact.val_sub, hnext]
    norm_num [Newton.Options.standard]
  refine ⟨next, ?_, hnext⟩
  change (Newton.iterate _ _ (19 + 1) _ _).result = _
  unfold Newton.iterate
  simp only [hmoving, hfalling, hstep, hshort, Exact.isFinite_eq, Bool.not_true,
    Bool.false_eq_true, if_false, if_true]

/-- Where the values of the search stop being positive. -/
theorem exists_solution_steepAndShallow :
    ∃ ρ, 2 < ρ ∧ (Characteristic.unit steepAndShallow).Crosses ρ := by
  have hdelay : ∀ d ∈ steepAndShallow, (1 : ℝ) ≤ d.val := by
    norm_num [steepAndShallow]
  have hone : 1 ≤ (Characteristic.unit steepAndShallow).sum Exact.val 1 := by
    rw [sum_steepAndShallow]
    norm_num
  obtain ⟨ρ, hρ, hsolution⟩ :=
    exists_solution one_pos (by simpa [Characteristic.unit] using hdelay) hone
  have hpos : 0 < ρ := one_pos.trans_le hρ
  refine ⟨ρ, ?_, (splitAt_unit one_pos hdelay).crosses hpos hsolution⟩
  rw [sum_steepAndShallow, Real.rpow_neg_one] at hsolution
  have hsteep : 0 < ρ ^ (-(1e9 : ℝ)) := Real.rpow_pos_of_pos hpos _
  have hshallow : 2 * ρ⁻¹ < 1 := by linarith
  rwa [← div_eq_mul_inv, div_lt_one hpos] at hshallow

/-- From the hint 1 the reported root is next to 1, and without it next to 2, if there is one. -/
theorem not_agree_steepAndShallow :
    ¬(dominantRoot steepAndShallow (some 1.0)).result.Agree
      (dominantRoot steepAndShallow none).result := by
  have htolerance : (deltaTolerance : Exact ℝ).val = 1e-9 := rfl
  obtain ⟨x, hnewton, hx⟩ := newton_steepAndShallow
  have hclamp : Scalar.clamp (1.0 : Exact ℝ) 1.0 (Bracket.bound 3 1.0) = 1.0 := by
    have : ¬Bracket.bound 3 (1.0 : Exact ℝ) < 1.0 := by
      rw [Exact.lt_iff, bound_steepAndShallow]
      norm_num
    simp [Scalar.clamp, this]
  have haccepts : accepts (Bracket.bound 3 1.0) x = true := by
    rw [accepts, Bool.and_eq_true_iff, decide_eq_true_iff, decide_eq_true_iff, Exact.le_iff,
      Exact.le_iff, Exact.val_mul, bound_steepAndShallow, hx]
    norm_num [overshoot]
  have hadopted : adopted? steepAndShallow (some 1.0) = some x :=
    adopted?_eq_some_iff.2
      ⟨_, 1.0, bracket?_steepAndShallow, rfl, rfl, by rw [hclamp]; exact hnewton, haccepts⟩
  rw [dominantRoot_result, hadopted, dominantRoot_none_result bracket?_steepAndShallow]
  intro hagree
  obtain ⟨r, hcold, hclose⟩ := Root.finite_agree_iff.1 hagree
  obtain ⟨ρ, hρ, hcrosses⟩ := exists_solution_steepAndShallow
  obtain ⟨c, hcertified, hsnap⟩ := exists_certified (by rw [htolerance]; norm_num) hcold
  have hnear := (abs_le.1 (abs_sub_le_precision hcrosses hcertified)).2
  have hc : 1.9 ≤ c.val := by
    by_contra hlow
    have := add_precision_mono (not_le.1 hlow).le
    norm_num [precision] at this hnear
    linarith
  have hmoved := Exact.abs_snap_sub_le x deltaTolerance (by rw [htolerance]; norm_num)
  rw [htolerance, abs_le] at hsnap hmoved
  have hbetween : |(Scalar.snap x deltaTolerance).val - r.val| ≤ 1e-6 := by
    obtain heq | hle := hclose
    · rw [heq, sub_self, abs_zero]
      norm_num
    · rw [Exact.le_iff, Exact.val_abs, Exact.val_sub] at hle
      exact hle
  rw [abs_le] at hbetween
  norm_num at hx hc hsnap hmoved hbetween
  linarith

/-- A hint need not be advisory, and neither need a root that a cache remembers: a single delta has
the root 1, from which the next search under that key starts. -/
theorem exists_hint_not_agree :
    ¬(dominantRoot steepAndShallow (some 1.0)).result.Agree
        (dominantRoot steepAndShallow none).result ∧
      ¬(((WarmCache.empty.find "k" [5.0]).2.find "k" steepAndShallow).1).Agree
        (dominantRoot steepAndShallow none).result := by
  have hremembered :
      (WarmCache.empty.find "k" ([5.0] : List (Exact ℝ))).2.get? "k" = some 1.0 := rfl
  constructor
  · exact not_agree_steepAndShallow
  · unfold WarmCache.find at hremembered ⊢
    simp only [hremembered]
    exact not_agree_steepAndShallow

end GrowthOrder
