import GrowthOrder.Proofs.Binary64.Value
import GrowthOrder.Scalar

/-!
# GrowthOrder.Proofs.Binary64.Equality

Numbers up to the sign of zero.  `==` cannot tell the two zeros apart and holds a NaN unequal to
itself; `Same` mends the second point, so that it is an equivalence that the operations respect:

* `beq_iff` — `x == y` says that `x` and `y` are the same and no NaN;
* `Same.add`, `Same.neg` — sums and negations of same numbers are the same.
-/

namespace GrowthOrder.Binary64

open Float.Model (UnpackedFloat Format)
open Float.Model.UnpackedFloat

/-! ## Same numbers -/

/-- A zero of either sign. -/
def IsZero (x : Float) : Prop :=
  ∃ s, parts x = .zero s

/-- Equal numbers, or two zeros. -/
def Same (x y : Float) : Prop :=
  x = y ∨ IsZero x ∧ IsZero y

theorem Same.refl (x : Float) : Same x x :=
  .inl rfl

theorem Same.symm {x y : Float} (h : Same x y) : Same y x :=
  h.imp Eq.symm And.symm

theorem Same.trans {x y z : Float} (hxy : Same x y) (hyz : Same y z) : Same x z := by
  obtain rfl | ⟨hx, hy⟩ := hxy
  · exact hyz
  · obtain rfl | ⟨-, hz⟩ := hyz
    · exact .inr ⟨hx, hy⟩
    · exact .inr ⟨hx, hz⟩

theorem parts_zero : parts 0.0 = .zero .positive := by
  have h : (0.0 : Float) = ofParts (.zero .positive) := by decide +kernel
  rw [h]
  exact parts_ofParts_zero .positive

theorem isZero_zero : IsZero 0.0 :=
  ⟨.positive, parts_zero⟩

/-- Parts compare as equal exactly if they are equal and no NaN, or two zeros. -/
theorem compare_eq_some_eq_iff (u v : UnpackedFloat) :
    u.compare v = some .eq ↔
      u = v ∧ u ≠ .notANumber ∨ (∃ s, u = .zero s) ∧ ∃ s, v = .zero s := by
  obtain s | _ | s | ⟨s, m, e, hm⟩ := u <;> obtain s' | _ | s' | ⟨s', m', e', hm'⟩ := v <;>
    (try cases s) <;> (try cases s') <;>
    simp [UnpackedFloat.compare, Ordering.then_eq_eq, and_comm, Ordering.swap_eq_eq] <;> rfl

/-- **`==` holds exactly of same numbers that are no NaN.** -/
theorem beq_iff (x y : Float) : (x == y) = true ↔ Same x y ∧ x.isNaN = false := by
  have hnan : x.isNaN = false ↔ parts x ≠ .notANumber := by
    rw [isNaN_eq_parts]
    cases parts x <;> simp [UnpackedFloat.isNaN]
  have hzero : IsZero x → parts x ≠ .notANumber := by
    rintro ⟨s, hs⟩
    simp [hs]
  have heq : parts x = parts y ↔ x = y := ⟨parts_inj, congrArg parts⟩
  rw [beq_eq_parts, UnpackedFloat.beq, beq_iff_eq, compare_eq_some_eq_iff, hnan, heq, Same]
  constructor
  · rintro (⟨h, hx⟩ | h)
    · exact ⟨.inl h, hx⟩
    · exact ⟨.inr h, hzero h.1⟩
  · rintro ⟨h | h, hx⟩
    · exact .inl ⟨h, hx⟩
    · exact .inr h

theorem isNaN_of_isZero {x : Float} (h : IsZero x) : x.isNaN = false := by
  obtain ⟨s, hs⟩ := h
  rw [isNaN_eq_parts, hs]
  rfl

theorem Same.isNaN {x y : Float} (h : Same x y) : x.isNaN = y.isNaN := by
  obtain rfl | ⟨hx, hy⟩ := h
  · rfl
  · rw [isNaN_of_isZero hx, isNaN_of_isZero hy]

theorem Same.isFinite {x y : Float} (h : Same x y) : x.isFinite = y.isFinite := by
  obtain rfl | ⟨⟨s, hx⟩, t, hy⟩ := h
  · rfl
  · rw [isFinite_eq_parts, isFinite_eq_parts, hx, hy]
    rfl

/-- Comparing with `==` respects sameness. -/
theorem Same.beq {x x' y y' : Float} (hx : Same x x') (hy : Same y y') :
    (x == y) = (x' == y') := by
  rw [Bool.eq_iff_iff, beq_iff, beq_iff, hx.isNaN]
  exact and_congr_left fun _ => ⟨fun h => (hx.symm.trans h).trans hy,
    fun h => (hx.trans h).trans hy.symm⟩

theorem beq_comm (x y : Float) : (x == y) = (y == x) := by
  rw [Bool.eq_iff_iff, beq_iff, beq_iff]
  exact ⟨fun h => ⟨h.1.symm, h.1.isNaN ▸ h.2⟩, fun h => ⟨h.1.symm, h.1.isNaN ▸ h.2⟩⟩

/-! ## Arithmetic -/

theorem isZero_neg {x : Float} : IsZero (-x) ↔ IsZero x := by
  rw [IsZero, IsZero, parts_neg]
  cases parts x <;> simp [UnpackedFloat.neg]

theorem Same.neg {x y : Float} (h : Same x y) : Same (-x) (-y) :=
  h.imp (congrArg Neg.neg) fun h => ⟨isZero_neg.2 h.1, isZero_neg.2 h.2⟩

/-- Adding a zero changes at most the sign of a zero. -/
theorem same_add_zero (x : Float) {y : Float} (h : IsZero y) : Same (x + y) x := by
  obtain ⟨t, ht⟩ := h
  cases hx : parts x with
  | zero s =>
      refine .inr ⟨?_, s, hx⟩
      rw [add_eq_ofParts, hx, ht]
      by_cases hs : s == t
      · exact ⟨s, by simp only [UnpackedFloat.add, if_pos hs]; exact parts_ofParts trivial⟩
      · exact ⟨.positive, by simp only [UnpackedFloat.add, if_neg hs]; exact parts_ofParts trivial⟩
  | notANumber =>
    exact .inl (by rw [add_eq_ofParts, ht, hx, UnpackedFloat.add, ← hx, ofParts_parts])
  | infinity s =>
      refine .inl ?_
      rw [add_eq_ofParts, ht, hx]
      exact (congrArg ofParts hx.symm).trans (ofParts_parts x)
  | finite s m e hm =>
      refine .inl ?_
      rw [add_eq_ofParts, ht, hx]
      exact (congrArg ofParts hx.symm).trans (ofParts_parts x)

/-- Adding a positive zero turns same numbers into equal ones. -/
theorem Same.add_zero_eq {x y : Float} (h : Same x y) : x + 0.0 = y + 0.0 := by
  have hzero {z : Float} (hz : IsZero z) : z + 0.0 = 0.0 := by
    obtain ⟨s, hs⟩ := hz
    apply parts_inj
    rw [add_eq_ofParts, hs, parts_zero]
    cases s <;> exact parts_ofParts trivial
  obtain rfl | ⟨hx, hy⟩ := h
  · rfl
  · rw [hzero hx, hzero hy]

theorem add_comm (x y : Float) : x + y = y + x := by
  rw [add_eq_ofParts, add_eq_ofParts]
  congr 1
  cases parts x with
  | notANumber => cases parts y <;> rfl
  | infinity s =>
      cases parts y with
      | infinity t => cases s <;> cases t <;> rfl
      | _ => rfl
  | zero s =>
      cases parts y with
      | zero t => cases s <;> cases t <;> rfl
      | _ => rfl
  | finite s m e hm =>
      cases parts y with
      | finite t n f hn => simp only [UnpackedFloat.add, min_comm e f, Int.add_comm]
      | _ => rfl

/-- Sums of same numbers are the same. -/
theorem Same.add {x x' y y' : Float} (hx : Same x x') (hy : Same y y') :
    Same (x + y) (x' + y') := by
  have hright {a b b' : Float} (h : Same b b') : Same (a + b) (a + b') := by
    obtain rfl | ⟨hb, hb'⟩ := h
    · exact .refl _
    · exact (same_add_zero a hb).trans (same_add_zero a hb').symm
  have hleft : Same (x + y) (x' + y) := by
    rw [add_comm x, add_comm x']
    exact hright hx
  exact hleft.trans (hright hy)

/-- A number that is taken away from zero is negated. -/
theorem same_zero_sub (x : Float) : Same (0.0 - x) (-x) := by
  cases hx : parts x with
  | zero s =>
      refine .inr ⟨?_, isZero_neg.2 ⟨s, hx⟩⟩
      rw [sub_eq_ofParts, parts_zero, hx]
      cases s
      · exact ⟨.positive, parts_ofParts trivial⟩
      · exact ⟨.positive, parts_ofParts trivial⟩
  | _ =>
      refine .inl (parts_inj ?_)
      rw [sub_eq_ofParts, parts_zero, parts_neg, hx]
      have hcanonical := canonical_parts (-x)
      rw [parts_neg, hx] at hcanonical
      exact parts_ofParts hcanonical

/-! ## Absolute values -/

theorem abs_of_isZero {x : Float} (h : IsZero x) : Scalar.abs x = 0.0 := by
  obtain ⟨s, hs⟩ := h
  have hsign : Scalar.isNegative x = true ↔ s = .negative := (magnitude_of_zero hs).2
  apply parts_inj
  rw [parts_zero, Scalar.abs]
  cases s with
  | negative =>
      rw [if_pos (hsign.2 rfl)]
      exact (parts_neg x).trans (congrArg UnpackedFloat.neg hs)
  | positive =>
      rw [if_neg fun h => by simpa using hsign.1 h]
      exact hs

/-- The absolute values of same numbers are equal. -/
theorem Same.abs {x y : Float} (h : Same x y) : Scalar.abs x = Scalar.abs y := by
  obtain rfl | ⟨hx, hy⟩ := h
  · rfl
  · rw [abs_of_isZero hx, abs_of_isZero hy]

/-- Nothing is below the absolute value of a NaN. -/
theorem not_lt_abs_of_isNaN {x y : Float} (h : y.isNaN = true) : ¬x < Scalar.abs y := by
  have hy : parts y = .notANumber := by
    rw [isNaN_eq_parts] at h
    cases hy : parts y with
    | notANumber => rfl
    | _ => rw [hy] at h; exact absurd h Bool.false_ne_true
  have habs : parts (Scalar.abs y) = .notANumber := by
    rw [Scalar.abs]
    split
    · exact (parts_neg y).trans (congrArg UnpackedFloat.neg hy)
    · exact hy
  rw [lt_iff_parts, habs, UnpackedFloat.lt]
  cases parts x <;> simp [UnpackedFloat.compare]

/-- Without its sign, a finite number is what its absolute value is. -/
theorem same_signed_abs {x : Float} (h : x.isFinite = true) :
    Same (if isNegative x then -x.abs else x.abs) x := by
  obtain ⟨s, hs⟩ | ⟨s, m, e, hm, hs⟩ := parts_of_isFinite h
  · have habs : IsZero x.abs := ⟨.positive, (parts_abs x).trans (congrArg UnpackedFloat.abs hs)⟩
    refine .inr ⟨?_, s, hs⟩
    split
    · exact isZero_neg.2 habs
    · exact habs
  · obtain ⟨-, -, hsign⟩ := magnitude_of_finite hs
    refine .inl (parts_inj ?_)
    cases s with
    | negative =>
        rw [if_pos (hsign.2 rfl), parts_neg, parts_abs, hs]
        rfl
    | positive =>
        rw [if_neg fun h => by simpa using hsign.1 h, parts_abs, hs]
        rfl

/-- A finite number is below zero exactly if it has a minus sign and is no zero. -/
theorem lt_zero_iff {x : Float} (h : x.isFinite = true) :
    x < 0.0 ↔ isNegative x = true ∧ ¬IsZero x := by
  rw [lt_iff_parts, parts_zero]
  obtain ⟨s, hs⟩ | ⟨s, m, e, hm, hs⟩ := parts_of_isFinite h
  · rw [hs]
    exact ⟨fun h => absurd h (by cases s <;> decide), fun h => absurd ⟨s, hs⟩ h.2⟩
  · obtain ⟨-, -, hsign⟩ := magnitude_of_finite hs
    have hzero : ¬IsZero x := by
      rintro ⟨t, ht⟩
      simp [hs] at ht
    rw [hsign, hs]
    cases s with
    | negative => exact ⟨fun _ => ⟨rfl, hzero⟩, fun _ => rfl⟩
    | positive => exact ⟨fun h => absurd h Bool.false_ne_true, fun h => by simpa using h.1⟩

/-- What is below zero is above zero when it is negated. -/
theorem not_neg_lt_zero {x : Float} (h : x < 0.0) : ¬-x < 0.0 := by
  rw [lt_iff_parts, parts_zero] at h
  rw [lt_iff_parts, parts_zero, parts_neg]
  cases hx : parts x with
  | notANumber => exact Bool.false_ne_true
  | zero s => cases s <;> exact Bool.false_ne_true
  | infinity s =>
      cases s with
      | negative => exact Bool.false_ne_true
      | positive => rw [hx] at h; exact absurd h Bool.false_ne_true
  | finite s m e hm =>
      cases s with
      | negative => exact Bool.false_ne_true
      | positive => rw [hx] at h; exact absurd h Bool.false_ne_true

theorem isFinite_neg (x : Float) : (-x).isFinite = x.isFinite := by
  rw [isFinite_eq_parts, isFinite_eq_parts, parts_neg]
  cases parts x <;> rfl

/-- Being below zero does not depend on the sign of zero. -/
theorem Same.lt_zero_iff {x y : Float} (h : Same x y) : x < 0.0 ↔ y < 0.0 := by
  have hzero {z : Float} (hz : IsZero z) : ¬z < 0.0 := by
    obtain ⟨s, hs⟩ := hz
    rw [lt_iff_parts, parts_zero, hs]
    cases s <;> decide
  obtain rfl | ⟨hx, hy⟩ := h
  · exact Iff.rfl
  · exact iff_of_false (hzero hx) (hzero hy)

/-- A finite number has a minus sign after adding a positive zero exactly if it is below zero. -/
theorem isNegative_add_zero_iff {x : Float} (h : x.isFinite = true) :
    isNegative (x + 0.0) = true ↔ x < 0.0 := by
  have hsame : Same (x + 0.0) x := same_add_zero x isZero_zero
  rw [← hsame.lt_zero_iff, GrowthOrder.Binary64.lt_zero_iff (hsame.isFinite.trans h)]
  refine (and_iff_left_of_imp fun hneg hzero => ?_).symm
  -- a zero becomes a positive zero by the addition
  have hx : Same x 0.0 := hsame.symm.trans (.inr ⟨hzero, isZero_zero⟩)
  rw [hx.add_zero_eq] at hneg
  exact absurd hneg (by decide +kernel)

end GrowthOrder.Binary64
