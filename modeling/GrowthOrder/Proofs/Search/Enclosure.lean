import GrowthOrder.Proofs.Exact
import GrowthOrder.Proofs.Search.Brent
import Mathlib.Order.CompletePartialOrder

/-!
# GrowthOrder.Proofs.Search.Enclosure

In exact arithmetic Brent's method never leaves the interval in which it was started, whatever the
function is.

The test for an interpolated step bounds the length of the step only.  That it goes toward the
blocking point is a matter of where the points lie: if all three of them differ, the current point
is between the other two, and the values fall or rise from one to the next.  A state that is
`Spanned` is a pending one (`Brent.State.Pending`) in which the points lie so; the first half of an
iteration makes it `Poised`, and from there the next point is strictly between the current and the
blocking one.
-/

namespace GrowthOrder

/-! ## Between two points -/

section

variable {K : Type} [LinearOrder K]

/-- A point lies strictly between two others, in either order. -/
def Between (a x b : K) : Prop :=
  a < x ∧ x < b ∨ b < x ∧ x < a

theorem Between.ne {a x b : K} (h : Between a x b) : a ≠ b := by
  obtain ⟨hax, hxb⟩ | ⟨hbx, hxa⟩ := h
  · exact (hax.trans hxb).ne
  · exact (hbx.trans hxa).ne'

theorem Between.symm {a x b : K} (h : Between a x b) : Between b x a :=
  Or.symm h

theorem Between.mem_uIcc {a x b : K} (h : Between a x b) : x ∈ Set.uIcc a b :=
  Set.mem_uIcc.2 (h.imp (fun h => ⟨h.1.le, h.2.le⟩) fun h => ⟨h.1.le, h.2.le⟩)

/-- From a point between them on, the interval to one of the ends is shorter. -/
theorem Between.uIcc_ssubset {a x b : K} (h : Between a x b) : Set.uIcc x b ⊂ Set.uIcc a b := by
  refine (Set.ssubset_iff_of_subset (Set.uIcc_subset_uIcc h.mem_uIcc Set.right_mem_uIcc)).2
    ⟨a, Set.left_mem_uIcc, ?_⟩
  rw [Set.mem_uIcc, not_or, not_and_or, not_and_or, not_le, not_le, not_le, not_le]
  obtain ⟨hax, hxb⟩ | ⟨hbx, hxa⟩ := h
  · exact ⟨.inl hax, .inl (hax.trans hxb)⟩
  · exact ⟨.inr (hbx.trans hxa), .inr hxa⟩

end

section

variable {K : Type} [Field K] [LinearOrder K] [IsStrictOrderedRing K]

/-- A step leads between two points if it goes toward the other one and is shorter than the way
there. -/
theorem between_add_iff {a b step : K} :
    Between a (a + step) b ↔ 0 < step * (b - a) ∧ |step| < |b - a| := by
  constructor
  · rintro (⟨hstep, hend⟩ | ⟨hend, hstep⟩)
    · have hpos : 0 < step := by linarith
      have hlt : step < b - a := by linarith
      rw [abs_of_pos hpos, abs_of_pos (hpos.trans hlt)]
      exact ⟨mul_pos hpos (hpos.trans hlt), hlt⟩
    · have hneg : step < 0 := by linarith
      have hlt : b - a < step := by linarith
      rw [abs_of_neg hneg, abs_of_neg (hlt.trans hneg)]
      exact ⟨mul_pos_of_neg_of_neg hneg (hlt.trans hneg), by linarith⟩
  · rintro ⟨htoward, hshort⟩
    obtain ⟨hstep, hway⟩ | ⟨hstep, hway⟩ := mul_pos_iff.1 htoward
    · rw [abs_of_pos hstep, abs_of_pos hway] at hshort
      exact .inl ⟨by linarith, by linarith⟩
    · rw [abs_of_neg hstep, abs_of_neg hway] at hshort
      exact .inr ⟨by linarith, by linarith⟩

/-- Seen from a point between them, two points lie on opposite sides. -/
theorem Between.mul_neg {a x b : K} (h : Between a x b) : (a - x) * (b - x) < 0 := by
  obtain ⟨hax, hxb⟩ | ⟨hbx, hxa⟩ := h
  · exact mul_neg_of_neg_of_pos (by linarith) (by linarith)
  · exact mul_neg_of_pos_of_neg (by linarith) (by linarith)

/-! ## The direction of a step -/

/-- The line through two values of opposite signs has its zero toward the other point. -/
theorem secant_toward {c b way : K} (hc : c ≠ 0) (hopposite : c * b ≤ 0) (hway : way ≠ 0) :
    0 < -c * -way / (c - b) * way := by
  have hpos : 0 < c * (c - b) := by
    have := mul_self_pos.2 hc
    linarith [mul_sub c c b]
  have hne : c - b ≠ 0 := (mul_ne_zero_iff.1 hpos.ne').2
  have heq : -c * -way / (c - b) * way = c * (c - b) * (way / (c - b)) ^ 2 := by
    field_simp
  rw [heq]
  exact mul_pos hpos (sq_pos_iff.2 (div_ne_zero hway hne))

/-- The inverse quadratic leads there too, if the values fall from a positive one to the next. -/
theorem quadratic_toward_of_pos {a b c back way : K} (hc : 0 < c) (hless : c < a) (hb : b ≤ 0)
    (hsides : back * way < 0) :
    0 < -c * (b * ((b - c) / way) - a * ((a - c) / back))
      / ((b - c) / way * ((a - c) / back) * (b - a)) * way := by
  obtain ⟨hback, hway⟩ := mul_ne_zero_iff.1 hsides.ne
  have hac : 0 < a - c := sub_pos.2 hless
  have hbc : b - c < 0 := sub_neg.2 (hb.trans_lt hc)
  have hba : b - a < 0 := sub_neg.2 (hb.trans_lt (hc.trans hless))
  have heq : -c * (b * ((b - c) / way) - a * ((a - c) / back))
        / ((b - c) / way * ((a - c) / back) * (b - a)) * way =
      c * (a * (a - c) * way ^ 2 - b * (b - c) * (back * way))
        / ((a - c) * ((b - c) * (b - a))) := by
    have hne := hac.ne'
    have hne' := hbc.ne
    have hne'' := hba.ne
    field_simp
    ring
  have hsum : 0 < a * (a - c) * way ^ 2 - b * (b - c) * (back * way) :=
    sub_pos.2 ((mul_nonpos_of_nonneg_of_nonpos (mul_nonneg_of_nonpos_of_nonpos hb hbc.le)
      hsides.le).trans_lt (mul_pos (mul_pos (hc.trans hless) hac) (sq_pos_iff.2 hway)))
  rw [heq]
  exact div_pos (mul_pos hc hsum) (mul_pos hac (mul_pos_of_neg_of_neg hbc hba))

/-- So does the inverse quadratic through three values that rise or fall from one point to the next:
`a` and `c` have the same sign, `c` is the smaller, and `b` has the opposite sign. -/
theorem quadratic_toward {a b c back way : K} (hc : c ≠ 0) (hsame : 0 < a * c) (hless : |c| < |a|)
    (hopposite : c * b ≤ 0) (hsides : back * way < 0) :
    0 < -c * (b * ((b - c) / way) - a * ((a - c) / back))
      / ((b - c) / way * ((a - c) / back) * (b - a)) * way := by
  obtain hneg | hpos := lt_or_gt_of_ne hc
  · have ha : a < 0 := (neg_iff_neg_of_mul_pos hsame).2 hneg
    have hb : 0 ≤ b := nonneg_of_mul_nonpos_right hopposite hneg
    rw [abs_of_neg hneg, abs_of_neg ha] at hless
    have hflipped := quadratic_toward_of_pos (a := -a) (b := -b) (c := -c) (neg_pos.2 hneg) hless
      (neg_nonpos.2 hb) hsides
    -- changing all signs changes that of the numerator and that of the denominator
    have hnum : -c * (b * ((b - c) / way) - a * ((a - c) / back)) =
        -(- -c * (-b * ((-b - -c) / way) - -a * ((-a - -c) / back))) := by
      ring
    have hden : (b - c) / way * ((a - c) / back) * (b - a) =
        -((-b - -c) / way * ((-a - -c) / back) * (-b - -a)) := by
      ring
    rwa [hnum, hden, neg_div_neg_eq]
  · have ha : 0 < a := (pos_iff_pos_of_mul_pos hsame).2 hpos
    rw [abs_of_pos hpos, abs_of_pos ha] at hless
    exact quadratic_toward_of_pos hpos hless (nonpos_of_mul_nonpos_right hopposite hpos) hsides

end

namespace Brent

variable {K : Type} [Field K] [LinearOrder K] [WholePart K] [ExpLog K]
variable {f : Exact K → Exact K} {o : Options (Exact K)}

/-! ## Signs -/

theorem opposite_iff_neg (p q : Sample (Exact K)) :
    opposite p q = true ↔ (p.value.val < 0 ↔ ¬q.value.val < 0) := by
  rw [opposite, bne_iff_ne, ne_eq, Bool.eq_iff_iff, Exact.isNegative_iff, Exact.isNegative_iff]
  tauto

theorem val_ne_of_opposite {p q : Sample (Exact K)} (hp : p = sample f p.x) (hq : q = sample f q.x)
    (h : opposite p q = true) : p.x.val ≠ q.x.val := by
  intro heq
  have hpq : p = q := by rw [hp, hq, Exact.ext heq]
  rw [hpq, opposite, bne_self_eq_false] at h
  exact Bool.false_ne_true h

namespace State

variable {s : State (Exact K)}

/-! ## The points of a state -/

/-- A pending state in which, unless the last step crossed the root, the current point is between
the previous and the blocking one. -/
structure Spanned (f : Exact K → Exact K) (s : State (Exact K)) : Prop extends s.Pending f where
  between : Brent.opposite s.previous s.current = false →
    Between s.previous.x.val s.current.x.val s.blocking.x.val

/-- A sign change between the current and the blocking point, where the previous point is the
blocking one or lies beyond the current one and has its sign. -/
structure Poised (f : Exact K → Exact K) (s : State (Exact K)) : Prop extends s.Enclosed f where
  anchored : s.previous = s.blocking ∨
    s.previous.isZero = false ∧ Brent.opposite s.previous s.current = false ∧
      Between s.previous.x.val s.current.x.val s.blocking.x.val

theorem Spanned.rebracket (h : s.Spanned f) (hcurrent : s.current.isZero = false) :
    s.rebracket.Poised f := by
  refine ⟨h.toPending.rebracket hcurrent, ?_⟩
  cases hcrossed : Brent.opposite s.previous s.current with
  | true =>
      have hs := rebracket_of_opposite h.nonzero hcurrent hcrossed
      exact .inl (hs.1.trans hs.2.symm)
  | false =>
      rw [rebracket_of_same hcrossed]
      exact .inr ⟨h.nonzero, hcrossed, h.between hcrossed⟩

theorem Poised.orient (h : s.Poised f) : s.orient.Poised f := by
  refine ⟨h.toEnclosed.orient, ?_⟩
  by_cases hbetter : Scalar.abs s.blocking.value < Scalar.abs s.current.value
  · left
    simp [State.orient, hbetter]
  · simpa [State.orient, hbetter] using h.anchored

theorem Enclosed.way_ne_zero (h : s.Enclosed f) : s.blocking.x.val - s.current.x.val ≠ 0 :=
  sub_ne_zero.2 (val_ne_of_opposite h.current h.blocking h.opposite).symm

/-- The interval between the current and the blocking point. -/
def interval (s : State (Exact K)) : Set K :=
  Set.uIcc s.current.x.val s.blocking.x.val

theorem interval_orient (s : State (Exact K)) : s.orient.interval = s.interval := by
  unfold orient
  split
  · exact Set.uIcc_comm _ _
  · rfl

end State

/-! ## The first state -/

section

variable {a b : Exact K} (ha : (sample f a).isZero = false)
  (hopposite : opposite (sample f a) (sample f b) = true)

include ha hopposite

theorem spanned_start : (start f a b).Spanned f :=
  ⟨⟨rfl, rfl, ha, .inl hopposite⟩, fun hsame => absurd (hsame.symm.trans hopposite) (by simp)⟩

/-- The first interval is the one that is searched. -/
theorem interval_start (hb : (sample f b).isZero = false) :
    (start f a b).oriented.interval = Set.uIcc a.val b.val := by
  have hblocking := (State.rebracket_of_opposite (s := start f a b) ha hb hopposite).2
  rw [State.oriented, State.interval_orient, State.interval, State.current_rebracket, hblocking]
  exact Set.uIcc_comm _ _

end

variable [IsStrictOrderedRing K]

theorem isZero_iff (p : Sample (Exact K)) : p.isZero = true ↔ p.value.val = 0 := by
  have hzero : (0.0 : K) = 0 := by norm_num
  rw [Sample.isZero, Exact.beq_iff, Exact.val_ofScientific, hzero]

theorem mul_nonpos_of_opposite {p q : Sample (Exact K)} (h : opposite p q = true) :
    p.value.val * q.value.val ≤ 0 := by
  rw [opposite_iff_neg] at h
  by_cases hp : p.value.val < 0
  · exact mul_nonpos_of_nonpos_of_nonneg hp.le (not_lt.1 (h.1 hp))
  · have hq : q.value.val < 0 := by
      by_contra hq
      exact hp (h.2 hq)
    exact mul_nonpos_of_nonneg_of_nonpos (not_lt.1 hp) hq.le

theorem mul_pos_of_same {p q : Sample (Exact K)} (h : opposite p q = false)
    (hp : p.isZero = false) (hq : q.isZero = false) : 0 < p.value.val * q.value.val := by
  rw [← Bool.not_eq_true, isZero_iff] at hp hq
  rw [← Bool.not_eq_true, opposite_iff_neg] at h
  obtain hneg | hpos := lt_or_gt_of_ne hp
  · have hq' : q.value.val < 0 := by tauto
    exact mul_pos_of_neg_of_neg hneg hq'
  · have hq' : ¬q.value.val < 0 := by
      have := hpos.not_gt
      tauto
    exact mul_pos hpos (lt_of_le_of_ne (not_lt.1 hq') (Ne.symm hq))

namespace State

variable {s : State (Exact K)}

/-! ## The next point -/

theorem tolerance_pos (s : State (Exact K)) (habsolute : 0 < o.absolute.val)
    (hrelative : 0 ≤ o.relative.val) : 0 < (s.tolerance o).val := by
  have htwo : (2.0 : K) = 2 := by norm_num
  have hscaled := mul_nonneg hrelative (abs_nonneg s.current.x.val)
  simp only [tolerance, Exact.val_div, Exact.val_add, Exact.val_mul, Exact.val_abs,
    Exact.val_ofScientific, htwo]
  linarith

theorem val_bisection (s : State (Exact K)) :
    s.bisection.val = (s.blocking.x.val - s.current.x.val) / 2 := by
  have htwo : (2.0 : K) = 2 := by norm_num
  simp [bisection, htwo]

theorem abs_bisection (s : State (Exact K)) :
    |s.bisection.val| = |s.blocking.x.val - s.current.x.val| / 2 := by
  rw [val_bisection, abs_div, abs_two]

/-- A search that goes on has at least the tolerance left on either side of the middle. -/
theorem tolerance_le_of_isDone (hdone : s.isDone o = false) :
    (s.tolerance o).val ≤ |s.blocking.x.val - s.current.x.val| / 2 := by
  have hfar := (Bool.or_eq_false_iff.1 hdone).2
  rw [← abs_bisection]
  simpa [Exact.lt_iff] using hfar

/-- Interpolation goes toward the blocking point if the value shrank in the last step. -/
theorem Poised.interpolation_toward (h : s.Poised f) (hcurrent : s.current.isZero = false)
    (hshrank : |s.current.value.val| < |s.previous.value.val|) :
    0 < s.interpolation.val * (s.blocking.x.val - s.current.x.val) := by
  have hvalue : s.current.value.val ≠ 0 := by
    rwa [← Bool.not_eq_true, isZero_iff] at hcurrent
  have hsign := mul_nonpos_of_opposite h.opposite
  obtain heq | ⟨hprevious, hsame, hbetween⟩ := h.anchored
  · have hinterpolation : s.interpolation = s.secant := by simp [interpolation, heq]
    rw [hinterpolation, secant, heq]
    simpa using secant_toward hvalue hsign h.way_ne_zero
  · have hinterpolation : s.interpolation = s.inverseQuadratic := by
      simp [interpolation, hbetween.ne]
    rw [hinterpolation]
    exact quadratic_toward hvalue (mul_pos_of_same hsame hprevious hcurrent) hshrank hsign
      hbetween.mul_neg

/-- The chosen step, interpolated or not, stays before the blocking point. -/
theorem Poised.choose_between (h : s.Poised f) (habsolute : 0 < o.absolute.val)
    (hrelative : 0 ≤ o.relative.val) (hcurrent : s.current.isZero = false) :
    Between s.current.x.val (s.current.x.val + (s.choose o).latest.val) s.blocking.x.val := by
  have hpos := abs_pos.2 h.way_ne_zero
  rw [between_add_iff]
  cases hstep : s.step o with
  | interpolation =>
      have hchosen : (s.choose o).latest = s.interpolation := by simp [choose, hstep]
      have htaken : s.mayInterpolate o = true ∧ s.isShort o = true := by
        simpa [step] using hstep
      have hshrank : |s.current.value.val| < |s.previous.value.val| := by
        simpa [Exact.lt_iff] using (Bool.and_eq_true_iff.1 htaken.1).2
      have hshort : 2 * |s.interpolation.val| < 3 * |s.bisection.val| - (s.tolerance o).val := by
        have htwo : (2.0 : K) = 2 := by norm_num
        have hthree : (3.0 : K) = 3 := by norm_num
        have hmin := of_decide_eq_true htaken.2
        simp only [Exact.lt_iff, Exact.val_mul, Exact.val_min, Exact.val_sub, Exact.val_abs,
          Exact.val_ofScientific, htwo, hthree] at hmin
        exact (lt_min_iff.1 hmin).2
      have htolerance := s.tolerance_pos habsolute hrelative
      rw [abs_bisection] at hshort
      rw [hchosen]
      exact ⟨h.interpolation_toward hcurrent hshrank, by linarith⟩
  | bisection =>
      have hchosen : (s.choose o).latest = s.bisection := by simp [choose, hstep]
      rw [hchosen, abs_bisection]
      refine ⟨?_, by linarith⟩
      rw [val_bisection, div_mul_eq_mul_div]
      exact div_pos (mul_self_pos.2 h.way_ne_zero) two_pos

/-- So does a step by the tolerance, as long as the search goes on. -/
theorem Poised.tolerance_between (h : s.Poised f) (habsolute : 0 < o.absolute.val)
    (hrelative : 0 ≤ o.relative.val) (hdone : s.isDone o = false) :
    Between s.current.x.val
      (s.current.x.val + (if 0.0 < s.bisection then s.tolerance o else -s.tolerance o).val)
      s.blocking.x.val := by
  have hpos := abs_pos.2 h.way_ne_zero
  have htolerance := s.tolerance_pos habsolute hrelative
  have hroom := tolerance_le_of_isDone hdone
  have hforward : (0.0 : Exact K) < s.bisection ↔ 0 < s.blocking.x.val - s.current.x.val := by
    have hzero : (0.0 : K) = 0 := by norm_num
    rw [Exact.lt_iff, Exact.val_ofScientific, hzero, val_bisection,
      div_pos_iff_of_pos_right two_pos]
  rw [between_add_iff]
  split
  · next hahead =>
    rw [abs_of_pos htolerance]
    exact ⟨mul_pos htolerance (hforward.1 hahead), by linarith⟩
  · next hbehind =>
    have hback := lt_of_le_of_ne (not_lt.1 (hforward.not.1 hbehind)) h.way_ne_zero
    rw [Exact.val_neg, abs_neg, abs_of_pos htolerance]
    exact ⟨mul_pos_of_neg_of_neg (neg_neg_of_pos htolerance) hback, by linarith⟩

/-- **The next point is strictly between the current and the blocking one.** -/
theorem Poised.next_between (h : s.Poised f) (habsolute : 0 < o.absolute.val)
    (hrelative : 0 ≤ o.relative.val) (hdone : s.isDone o = false) :
    Between s.current.x.val (s.next o).val s.blocking.x.val := by
  unfold next
  split
  · exact h.choose_between habsolute hrelative (Bool.or_eq_false_iff.1 hdone).1
  · exact h.tolerance_between habsolute hrelative hdone

theorem Poised.advance (h : s.Poised f) (habsolute : 0 < o.absolute.val)
    (hrelative : 0 ≤ o.relative.val) (hdone : s.isDone o = false) :
    (s.advance f o).Spanned f := by
  refine ⟨h.toEnclosed.advance hdone, fun _ => ?_⟩
  rw [blocking_advance]
  exact h.next_between habsolute hrelative hdone

end State

/-! ## The interval -/

namespace State

variable {s : State (Exact K)}

/-- Whichever end the new point replaces, the interval becomes shorter. -/
theorem Poised.interval_advance (h : s.Poised f) (habsolute : 0 < o.absolute.val)
    (hrelative : 0 ≤ o.relative.val) (hdone : s.isDone o = false) :
    (s.advance f o).oriented.interval ⊂ s.interval := by
  have hnext := h.next_between habsolute hrelative hdone
  rw [oriented, interval_orient, interval, interval, current_rebracket]
  obtain hblocking | hblocking := blocking_rebracket (s.advance f o)
  · rw [hblocking, Set.uIcc_comm s.current.x.val]
    exact hnext.symm.uIcc_ssubset
  · rw [hblocking, blocking_advance]
    exact hnext.uIcc_ssubset

theorem Spanned.poised (h : s.Spanned f) (hdone : s.oriented.isDone o = false) :
    s.oriented.Poised f :=
  (h.rebracket (isZero_of_isDone Exact.not_abs_lt_of_isZero hdone)).orient

theorem Spanned.turn (h : s.Spanned f) (habsolute : 0 < o.absolute.val)
    (hrelative : 0 ≤ o.relative.val) (hdone : s.oriented.isDone o = false) :
    (s.turn f o).Spanned f :=
  (h.poised hdone).advance habsolute hrelative hdone

end State

/-! ## Runs -/

section

variable {s : State (Exact K)} {remaining first steps : Nat}
variable {r : Recorded (Exact K) (Except (SearchFault (Exact K)) (Exact K))}

/-- A run from a spanned state passes through spanned states only. -/
theorem IsRun.spanned (h : IsRun f o s remaining first steps r) (habsolute : 0 < o.absolute.val)
    (hrelative : 0 ≤ o.relative.val) (hs : s.Spanned f) {i : Nat} (hi : i ≤ steps) :
    (s.after f o i).Spanned f := by
  induction i with
  | zero => exact hs
  | succ i ih =>
      rw [State.after_succ]
      exact (ih (Nat.le_of_succ_le hi)).turn habsolute hrelative (h.goes_on i hi)

/-- Its iterations start from poised states. -/
theorem IsRun.poised (h : IsRun f o s remaining first steps r) (habsolute : 0 < o.absolute.val)
    (hrelative : 0 ≤ o.relative.val) (hs : s.Spanned f) {i : Nat} (hi : i < steps) :
    (s.after f o i).oriented.Poised f :=
  (h.spanned habsolute hrelative hs hi.le).poised (h.goes_on i hi)

/-- Each of its intervals is in the one before. -/
theorem IsRun.interval_ssubset (h : IsRun f o s remaining first steps r)
    (habsolute : 0 < o.absolute.val) (hrelative : 0 ≤ o.relative.val) (hs : s.Spanned f) {i : Nat}
    (hi : i < steps) :
    (s.after f o (i + 1)).oriented.interval ⊂ (s.after f o i).oriented.interval := by
  rw [State.after_succ]
  exact (h.poised habsolute hrelative hs hi).interval_advance habsolute hrelative (h.goes_on i hi)

/-- So all of them are in the first one. -/
theorem IsRun.interval_subset (h : IsRun f o s remaining first steps r)
    (habsolute : 0 < o.absolute.val) (hrelative : 0 ≤ o.relative.val) (hs : s.Spanned f) {i : Nat}
    (hi : i ≤ steps) : (s.after f o i).oriented.interval ⊆ s.oriented.interval := by
  induction i with
  | zero => exact subset_rfl
  | succ i ih =>
      exact (h.interval_ssubset habsolute hrelative hs hi).subset.trans (ih (Nat.le_of_succ_le hi))

end

/-! ## The whole search -/

/-- **Every point that is evaluated lies where the search was started.** -/
theorem evaluated_mem_uIcc (habsolute : 0 < o.absolute.val) (hrelative : 0 ≤ o.relative.val)
    {a b p : Exact K} (hp : p ∈ evaluated f a b o) : p.val ∈ Set.uIcc a.val b.val := by
  have hends (hevents : (search f a b o).events = []) : p.val ∈ Set.uIcc a.val b.val := by
    obtain rfl | rfl : p = a ∨ p = b := by simpa [evaluated, hevents] using hp
    · exact Set.left_mem_uIcc
    · exact Set.right_mem_uIcc
  cases course f a b o with
  | lower ha h => exact hends (by rw [h])
  | upper ha hb h => exact hends (by rw [h])
  | refused ha hb hsame h => exact hends (by rw [h])
  | run ha hb hopposite steps h =>
      have hspanned := spanned_start (f := f) ha hopposite
      rw [evaluated_eq h, List.mem_cons, List.mem_map] at hp
      obtain rfl | ⟨i, hi, rfl⟩ := hp
      · exact Set.left_mem_uIcc
      cases i with
      | zero => exact Set.right_mem_uIcc
      | succ i =>
          have hlt : i < steps := Nat.lt_of_succ_lt_succ (List.mem_range.1 hi)
          have hnext := (h.poised habsolute hrelative hspanned hlt).next_between
            habsolute hrelative (h.goes_on i hlt)
          rw [← interval_start ha hopposite hb, State.after_succ]
          exact h.interval_subset habsolute hrelative hspanned hlt.le hnext.mem_uIcc

/-- **A result lies where the search was started**: in every interval that has both ends. -/
theorem search_mem {t : Set K} [t.OrdConnected] (habsolute : 0 < o.absolute.val)
    (hrelative : 0 ≤ o.relative.val) {a b x : Exact K} (ha : a.val ∈ t) (hb : b.val ∈ t)
    (hx : (search f a b o).result = .ok x) : x.val ∈ t :=
  Set.OrdConnected.uIcc_subset inferInstance ha hb (evaluated_mem_uIcc habsolute hrelative
    (search_ok Exact.not_abs_lt_of_isZero hx).1)

end Brent

end GrowthOrder
