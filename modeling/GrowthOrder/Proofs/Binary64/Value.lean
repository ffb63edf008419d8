import GrowthOrder.Proofs.Binary64.Reading

/-!
# GrowthOrder.Proofs.Binary64.Value

The exact value of a finite number, as it is read from the bits, and as its parts say.

* `ofRational_magnitude` — the number nearest to the exact magnitude of a finite number is its
  absolute value.
-/

namespace GrowthOrder.Binary64

open Float.Model (UnpackedFloat Format)
open Float.Model.UnpackedFloat

/-! ## Fields -/

/-- The bits of a number. -/
def word (x : Float) : BitVec 64 :=
  x.toModel.toBits.toBitVec

theorem exponentField_eq (x : Float) : exponentField x = (wordExponent (word x)).toNat := by
  change (word x).toNat / 2 ^ 52 % 2 ^ 11 = _
  simp [wordExponent, unpackExponent, BitVec.extractLsb, BitVec.extractLsb'_toNat,
    Nat.shiftRight_eq_div_pow]

theorem fraction_eq (x : Float) : fraction x = (wordFraction (word x)).toNat := by
  change (word x).toNat % 2 ^ 52 = _
  simp [wordFraction, unpackMantissa, BitVec.extractLsb, BitVec.extractLsb'_toNat]

theorem ofBitVec_eq_negative (v : BitVec 1) : Sign.ofBitVec v = .negative ↔ v.toNat = 1 := by
  have hlt := v.isLt
  have hcases : v = 0#1 ∨ v = 1#1 := by
    simp only [BitVec.toNat_eq, BitVec.toNat_ofNat]
    omega
  obtain rfl | rfl := hcases
  · exact ⟨fun h => absurd h (by simp [Sign.ofBitVec]), fun h => absurd h (by decide)⟩
  · exact ⟨fun _ => rfl, fun _ => rfl⟩

theorem isNegative_iff (x : Float) : isNegative x = true ↔ wordSign (word x) = .negative := by
  have hlt := (word x).isLt
  have hsign : (@unpackSign Format.binary64 (word x)).toNat = (word x).toNat / 2 ^ 63 := by
    simp [unpackSign, BitVec.extractLsb, BitVec.extractLsb'_toNat, Nat.shiftRight_eq_div_pow]
    omega
  change ((word x).toNat / 2 ^ 63 == 1) = true ↔ _
  rw [wordSign, ofBitVec_eq_negative, hsign, beq_iff_eq]

/-! ## Finite numbers -/

/-- The parts of a number, by cases on its fields. -/
theorem parts_eq (x : Float) : parts x = UnpackedFloat.unpack Format.binary64 (word x) :=
  rfl

theorem magnitude_of_zero {x : Float} {s : Sign} (h : parts x = .zero s) :
    magnitude x = 0 ∧ (isNegative x = true ↔ s = .negative) := by
  rw [parts_eq, unpack_eq] at h
  split at h
  · split at h <;> exact absurd h (by simp)
  · split at h
    · next hexponent =>
      split at h
      · next hfraction =>
        obtain rfl := UnpackedFloat.zero.inj h
        refine ⟨?_, isNegative_iff x⟩
        rw [magnitude, mantissa, exponentField_eq, hexponent, if_pos BitVec.toNat_zero, fraction_eq,
          hfraction]
        simp
      · exact absurd h (by simp)
    · exact absurd h (by simp)

theorem magnitude_of_finite {x : Float} {s : Sign} {m : Nat} {e : Int} {hm : 0 < m}
    (h : parts x = .finite s m e hm) :
    mantissa x = m ∧ exponent x = e ∧ (isNegative x = true ↔ s = .negative) := by
  rw [parts_eq, unpack_eq] at h
  split at h
  · split at h <;> exact absurd h (by simp)
  · split at h
    · next hexponent =>
      split at h
      · exact absurd h (by simp)
      · next hfraction =>
        obtain ⟨rfl, rfl, rfl⟩ := UnpackedFloat.finite.inj h
        refine ⟨?_, ?_, isNegative_iff x⟩
        · rw [mantissa, exponentField_eq, hexponent, if_pos BitVec.toNat_zero, fraction_eq]
        · rw [exponent, exponentField_eq, hexponent, if_pos BitVec.toNat_zero]
    · next hexponent =>
      obtain ⟨rfl, rfl, rfl⟩ := UnpackedFloat.finite.inj h
      have hfield : exponentField x ≠ 0 := by
        rw [exponentField_eq]
        intro hzero
        exact hexponent (by simpa [BitVec.toNat_eq] using hzero)
      refine ⟨?_, ?_, isNegative_iff x⟩
      · rw [mantissa, if_neg hfield, fraction_eq, Nat.pow_eq]
      · rw [exponent, if_neg hfield, exponentField_eq]

/-- A number whose absolute value is zero has no magnitude. -/
theorem magnitude_of_abs {x : Float} {s : Sign} (h : parts x.abs = .zero s) : magnitude x = 0 := by
  rw [parts_abs] at h
  cases hx : parts x with
  | zero t => exact (magnitude_of_zero hx).1
  | _ => rw [hx] at h; exact absurd h (by simp [UnpackedFloat.abs])

/-- A finite number is a zero, or has a mantissa and an exponent. -/
theorem parts_of_isFinite {x : Float} (h : x.isFinite = true) :
    (∃ s, parts x = .zero s) ∨ ∃ s m e hm, parts x = .finite s m e hm := by
  rw [isFinite_eq_parts] at h
  cases hx : parts x with
  | notANumber => rw [hx] at h; exact absurd h Bool.false_ne_true
  | infinity s => rw [hx] at h; exact absurd h Bool.false_ne_true
  | zero s => exact .inl ⟨s, rfl⟩
  | finite s m e hm => exact .inr ⟨s, m, e, hm, rfl⟩

/-- **The number nearest to the magnitude of a finite number is its absolute value.** -/
theorem ofRational_magnitude {x : Float} (h : x.isFinite = true) :
    ofRational (magnitude x) = x.abs := by
  apply parts_inj
  rw [parts_abs]
  obtain ⟨s, hx⟩ | ⟨s, m, e, hm, hx⟩ := parts_of_isFinite h
  · rw [(magnitude_of_zero hx).1, ofRational, if_pos rfl, hx, parts_ofParts_zero]
    rfl
  · obtain ⟨hmantissa, hexponent, -⟩ := magnitude_of_finite hx
    have hcanonical : Canonical (.finite .positive m e hm) := by
      have := canonical_parts x
      rwa [hx] at this
    have hpos : (0 : ℚ) < m * 2 ^ e := by positivity
    rw [magnitude, hmantissa, hexponent, ofRational_of_pos hpos, rounded_exact hcanonical,
      parts_ofParts hcanonical, hx]
    rfl

end GrowthOrder.Binary64
