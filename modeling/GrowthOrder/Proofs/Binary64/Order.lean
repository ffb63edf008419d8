import GrowthOrder.Proofs.Binary64.Equality

/-!
# GrowthOrder.Proofs.Binary64.Order

Comparisons, and what a NaN does to them.  A NaN compares with nothing and is passed on by every
operation, so that a comparison that holds tells that no NaN went into it.
-/

namespace GrowthOrder.Binary64

open Float.Model (UnpackedFloat Format)
open Float.Model.UnpackedFloat

/-! ## NaN -/

theorem isNaN_iff_parts (x : Float) : x.isNaN = true ↔ parts x = .notANumber := by
  rw [isNaN_eq_parts]
  cases parts x <;> simp [UnpackedFloat.isNaN]

theorem div_eq_ofParts (x y : Float) :
    x / y = ofParts (UnpackedFloat.div Format.binary64 (parts x) (parts y)) :=
  rfl

theorem isNaN_ofParts_notANumber : (ofParts .notANumber).isNaN = true :=
  (isNaN_iff_parts _).2 (parts_ofParts (show Canonical .notANumber from trivial))

theorem isNaN_sub {x y : Float} (h : x.isNaN = true ∨ y.isNaN = true) : (x - y).isNaN = true := by
  simp only [isNaN_iff_parts] at h
  rw [sub_eq_ofParts]
  obtain h | h := h
  · rw [h]
    exact isNaN_ofParts_notANumber
  · rw [h]
    cases parts x <;> exact isNaN_ofParts_notANumber

theorem isNaN_div {x : Float} (h : x.isNaN = true) (y : Float) : (x / y).isNaN = true := by
  rw [div_eq_ofParts, (isNaN_iff_parts x).1 h]
  exact isNaN_ofParts_notANumber

@[simp]
theorem isNaN_neg (x : Float) : (-x).isNaN = x.isNaN := by
  rw [isNaN_eq_parts, isNaN_eq_parts, parts_neg]
  cases parts x <;> rfl

@[simp]
theorem isNaN_abs (x : Float) : (Scalar.abs x).isNaN = x.isNaN := by
  rw [Scalar.abs]
  split
  · exact isNaN_neg x
  · rfl

/-! ## Comparisons -/

theorem le_iff_parts (x y : Float) : x ≤ y ↔ (parts x).le (parts y) = true := by
  change decide ((parts x).le (parts y) = true) = true ↔ _
  rw [decide_eq_true_iff]

/-- The other way round, numbers compare the other way. -/
theorem compare_swap (u v : UnpackedFloat) : (u.compare v).map Ordering.swap = v.compare u := by
  have hint (e e' : Int) : (compare e e').swap = compare e' e := Std.OrientedCmp.eq_swap.symm
  have hnat (m m' : Nat) : (compare m m').swap = compare m' m := Std.OrientedCmp.eq_swap.symm
  obtain s | _ | s | ⟨s, m, e, hm⟩ := u <;> obtain s' | _ | s' | ⟨s', m', e', hm'⟩ := v <;>
    (try cases s) <;> (try cases s') <;>
    simp [UnpackedFloat.compare, Ordering.swap_then, hint, hnat] <;> rfl

/-- Numbers compare unless one is a NaN. -/
theorem compare_eq_none_iff (u v : UnpackedFloat) :
    u.compare v = none ↔ u = .notANumber ∨ v = .notANumber := by
  obtain s | _ | s | ⟨s, m, e, hm⟩ := u <;> obtain s' | _ | s' | ⟨s', m', e', hm'⟩ := v <;>
    (try cases s) <;> (try cases s') <;> simp [UnpackedFloat.compare]

/-- What compares is no NaN. -/
theorem isNaN_of_compare {x y : Float} (h : (parts x).compare (parts y) ≠ none) :
    x.isNaN = false ∧ y.isNaN = false := by
  rwa [← Bool.not_eq_true, ← Bool.not_eq_true, isNaN_iff_parts, isNaN_iff_parts, ← not_or,
    ← compare_eq_none_iff]

theorem isNaN_of_le {x y : Float} (h : x ≤ y) : x.isNaN = false ∧ y.isNaN = false := by
  refine isNaN_of_compare fun hnone => ?_
  rw [le_iff_parts, UnpackedFloat.le, hnone] at h
  exact absurd h Bool.false_ne_true

theorem isNaN_of_lt {x y : Float} (h : x < y) : x.isNaN = false ∧ y.isNaN = false := by
  refine isNaN_of_compare fun hnone => ?_
  rw [lt_iff_parts, UnpackedFloat.lt, hnone] at h
  exact absurd h Bool.false_ne_true

/-- **Of two numbers, one is below the other unless that one is not above it.** -/
theorem lt_iff_not_le {x y : Float} (hx : x.isNaN = false) (hy : y.isNaN = false) :
    x < y ↔ ¬ y ≤ x := by
  have hne : (parts x).compare (parts y) ≠ none := by
    rw [ne_eq, compare_eq_none_iff, ← isNaN_iff_parts, ← isNaN_iff_parts, hx, hy]
    simp
  rw [lt_iff_parts, le_iff_parts, UnpackedFloat.lt, UnpackedFloat.le, ← compare_swap (parts x)]
  cases h : (parts x).compare (parts y) with
  | none => exact absurd h hne
  | some o => cases o <;> decide

/-! ## Absolute values -/

theorem isNegative_of_infinity {x : Float} {s : Sign} (h : parts x = .infinity s) :
    isNegative x = true ↔ s = .negative := by
  rw [isNegative_iff]
  rw [parts_eq, unpack_eq] at h
  split at h
  · split at h
    · rw [UnpackedFloat.infinity.inj h]
    · exact absurd h (by simp)
  · split at h
    · split at h <;> exact absurd h (by simp)
    · exact absurd h (by simp)

theorem abs_of_isNegative {x : Float} (h : isNegative x = true) : Scalar.abs x = -x :=
  if_pos h

theorem abs_of_not_isNegative {x : Float} (h : ¬isNegative x = true) : Scalar.abs x = x :=
  if_neg h

/-- The absolute value of a signed number, by the sign. -/
theorem parts_abs_signed {x : Float} {s : Sign} (h : isNegative x = true ↔ s = .negative) :
    parts (Scalar.abs x) =
      match s with
      | .negative => (parts x).neg
      | .positive => parts x := by
  cases s with
  | negative => rw [abs_of_isNegative (h.2 rfl), parts_neg]
  | positive => rw [abs_of_not_isNegative fun hneg => nomatch h.1 hneg]

/-- To take the absolute value is to clear the sign. -/
theorem abs_eq (x : Float) : Scalar.abs x = x.abs := by
  apply parts_inj
  rw [parts_abs]
  cases hx : parts x with
  | notANumber =>
      by_cases hneg : isNegative x = true
      · rw [abs_of_isNegative hneg, parts_neg, hx]
        rfl
      · rw [abs_of_not_isNegative hneg, hx]
        rfl
  | infinity s =>
      rw [parts_abs_signed (isNegative_of_infinity hx), hx]
      cases s <;> rfl
  | zero s =>
      rw [parts_abs_signed (magnitude_of_zero hx).2, hx]
      cases s <;> rfl
  | finite s m e hm =>
      rw [parts_abs_signed (magnitude_of_finite hx).2.2, hx]
      cases s <;> rfl

/-- Nothing is nearer to zero than zero. -/
theorem not_abs_lt_of_isZero (x y : Float) (h : (x == (0.0 : Float)) = true) :
    ¬Scalar.abs y < Scalar.abs x := by
  have hx : Scalar.abs x = 0.0 := by
    rw [((beq_iff x 0.0).1 h).1.abs, abs_of_isZero isZero_zero]
  rw [hx, abs_eq, lt_iff_parts, parts_abs, parts_zero]
  cases parts y <;> exact Bool.false_ne_true

end GrowthOrder.Binary64
