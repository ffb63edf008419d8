import GrowthOrder.Binary64
import Mathlib

/-!
# GrowthOrder.Proofs.Binary64.Packing

A binary64 number and its parts.  `parts` takes the 64 bits of a number apart into a sign, a
mantissa and an exponent, and `ofParts` puts them together again:

* `ofParts_parts` — nothing is lost by taking a number apart;
* `parts_ofParts` — nothing is lost by putting together parts that are `Canonical`, as the parts of
  a number always are (`canonical_parts`).

So a statement about numbers is one about canonical parts, where arithmetic is done on integers.
-/

namespace GrowthOrder.Binary64

open Float.Model (UnpackedFloat Format)
open Float.Model.UnpackedFloat

/-! ## The three fields of a word -/

/-- The sign of a word. -/
def wordSign (b : BitVec 64) : Sign :=
  Sign.ofBitVec (@unpackSign Format.binary64 b)

/-- The eleven exponent bits of a word. -/
def wordExponent (b : BitVec 64) : BitVec 11 :=
  @unpackExponent Format.binary64 b

/-- The fifty-two fraction bits of a word. -/
def wordFraction (b : BitVec 64) : BitVec 52 :=
  @unpackMantissa Format.binary64 b

/-- A word is its three fields. -/
theorem packComponents_fields (b : BitVec 64) :
    packComponents Format.binary64 (wordSign b) (wordExponent b) (wordFraction b) = b := by
  have hs : (wordSign b).toBitVec = @unpackSign Format.binary64 b := by
    unfold wordSign
    generalize @unpackSign Format.binary64 b = s
    revert s
    decide
  rw [packComponents, hs]
  ext i hi
  simp [unpackSign, wordExponent, wordFraction, unpackExponent, unpackMantissa]
  grind

/-- The number that a word stands for, by cases on its fields. -/
theorem unpack_eq (b : BitVec 64) :
    UnpackedFloat.unpack Format.binary64 b =
      if wordExponent b = -1#11 then
        if wordFraction b = 0#52 then .infinity (wordSign b) else .notANumber
      else if wordExponent b = 0#11 then
        if h : wordFraction b = 0#52 then .zero (wordSign b)
        else .finite (wordSign b) (wordFraction b).toNat (-1074)
          (by simpa [BitVec.toNat_pos, BitVec.pos_iff_ne_zero] using h)
      else .finite (wordSign b) (2 ^ 52 + (wordFraction b).toNat)
        ((wordExponent b).toNat - 1075) (by positivity) := by
  have happ : (1#1 ++ wordFraction b).toNat = 2 ^ 52 + (wordFraction b).toNat := by
    rw [BitVec.toNat_append, ← Nat.shiftLeft_add_eq_or_of_lt (wordFraction b).isLt]
    simp
  unfold UnpackedFloat.unpack
  change (if wordExponent b = -1#11 then _ else if wordExponent b = 0#11 then
    (if h : wordFraction b = 0#52 then UnpackedFloat.zero (wordSign b)
      else UnpackedFloat.finite (wordSign b) (wordFraction b).toNat
        ((wordExponent b).toNat - 1075 + 1) _)
    else UnpackedFloat.finite (wordSign b) (1#1 ++ wordFraction b).toNat
      ((wordExponent b).toNat - 1075) _) = _
  simp only [happ]
  split
  · rfl
  · split
    · next hz => simp [hz]
    · rfl

/-! ## Parts of a number -/

/-- The sign, mantissa and exponent of a number, or which special value it is. -/
def parts (x : Float) : UnpackedFloat :=
  x.toModel.unpack

/-- The number with the given parts. -/
def ofParts (u : UnpackedFloat) : Float :=
  .ofModel (.pack u)

/-- Parts as a number has them: a mantissa of at most 53 bits, of exactly 53 unless the exponent is
the least one, and an exponent in range. -/
def Canonical : UnpackedFloat → Prop
  | .finite _ m e _ => m < 2 ^ 53 ∧ -1074 ≤ e ∧ e ≤ 971 ∧ (2 ^ 52 ≤ m ∨ e = -1074)
  | _ => True

/-- The parts of a number are canonical. -/
theorem canonical_parts (x : Float) : Canonical (parts x) := by
  unfold parts Float.Model.unpack
  generalize x.toModel.toBits.toBitVec = b
  have hf := (wordFraction b).isLt
  have he := (wordExponent b).isLt
  rw [unpack_eq]
  split
  · split <;> trivial
  · next hinf =>
    have hinf' : (wordExponent b).toNat ≠ 2047 := fun h => hinf (by simp [BitVec.toNat_eq, h])
    split
    · split
      · trivial
      · exact ⟨by omega, by omega, by omega, .inr rfl⟩
    · next hz =>
      have hz' : (wordExponent b).toNat ≠ 0 := by simpa [BitVec.toNat_eq] using hz
      exact ⟨by omega, by omega, by omega, .inl (by omega)⟩

/-- Packing finite parts, by cases on the exponent and the size of the mantissa. -/
theorem pack_finite (s : Sign) (m : Nat) (e : Int) (hm : 0 < m) :
    UnpackedFloat.pack Format.binary64 (.finite s m e hm) =
      if 2047 ≤ (e + 1075).toNat then packedInfinity Format.binary64 s
      else if m.log2 = 52 then
        packComponents Format.binary64 s (BitVec.ofNat 11 (e + 1075).toNat) (BitVec.ofNat 52 m)
      else packComponents Format.binary64 s 0#11 (BitVec.ofNat 52 m) := by
  have hbias : Format.binary64.exponentBias = 1023 := rfl
  have hbits : Format.binary64.mantissaBits = 53 := rfl
  have he : e + ((1023 : Nat) : Int) + ((52 : Nat) : Int) = e + 1075 := by omega
  have hinf : 2 ^ 11 ≤ (e + 1075).toNat + 1 ↔ 2047 ≤ (e + 1075).toNat := by omega
  have hnormal : m.log2 + 1 = 53 ↔ m.log2 = 52 := by omega
  simp only [UnpackedFloat.pack, hbias, hbits, he, hinf, hnormal]

theorem pack_unpack (b : BitVec 64) (hb : Format.binary64.Valid b) :
    UnpackedFloat.pack Format.binary64 (UnpackedFloat.unpack Format.binary64 b) = b := by
  have hf := packComponents_fields b
  have hlt := (wordFraction b).isLt
  rw [unpack_eq]
  split
  · next he =>
    split
    · next hm =>
      conv_rhs => rw [← hf, he, hm]
      rfl
    · next hm => exact (hb.1 he hm).symm
  · next he =>
    split
    · next hz =>
      split
      · next hm =>
        conv_rhs => rw [← hf, hz, hm]
        rfl
      · next hm =>
        have hm' : (wordFraction b).toNat ≠ 0 := by simpa [BitVec.toNat_eq] using hm
        have hlog : (wordFraction b).toNat.log2 < 52 := (Nat.log2_lt hm').2 hlt
        conv_rhs => rw [← hf, hz]
        rw [pack_finite, if_neg (by decide), if_neg (by omega), BitVec.ofNat_toNat,
          BitVec.setWidth_eq]
    · next hz =>
      have he' : (wordExponent b).toNat ≠ 2047 := fun h => he (by simp [BitVec.toNat_eq, h])
      have hz' : (wordExponent b).toNat ≠ 0 := by simpa [BitVec.toNat_eq] using hz
      have hexp := (wordExponent b).isLt
      have hlog : (2 ^ 52 + (wordFraction b).toNat).log2 = 52 := by
        rw [Nat.log2_eq_iff (by positivity)]
        omega
      have hbias : ((wordExponent b).toNat - 1075 + 1075 : Int).toNat
          = (wordExponent b).toNat := by
        omega
      conv_rhs => rw [← hf]
      rw [pack_finite, hbias, if_neg (by omega), if_pos hlog]
      congr 1
      · simp
      · rw [BitVec.toNat_eq, BitVec.toNat_ofNat]
        omega

/-- **Nothing is lost by taking a number apart.** -/
@[simp] theorem ofParts_parts (x : Float) : ofParts (parts x) = x := by
  obtain ⟨b, hb⟩ := x
  simp only [ofParts, parts, Float.Model.unpack, Float.Model.pack, pack_unpack b.toBitVec hb]

/-- Numbers with the same parts are the same. -/
theorem parts_inj {x y : Float} (h : parts x = parts y) : x = y := by
  rw [← ofParts_parts x, h, ofParts_parts]

/-! ## Putting parts together -/

@[simp] theorem wordExponent_packComponents (s : Sign) (e : BitVec 11) (m : BitVec 52) :
    wordExponent (packComponents Format.binary64 s e m) = e :=
  unpackExponent_packComponents

@[simp] theorem wordFraction_packComponents (s : Sign) (e : BitVec 11) (m : BitVec 52) :
    wordFraction (packComponents Format.binary64 s e m) = m :=
  unpackMantissa_packComponents

@[simp] theorem wordSign_packComponents (s : Sign) (e : BitVec 11) (m : BitVec 52) :
    wordSign (packComponents Format.binary64 s e m) = s := by
  have hs : @unpackSign Format.binary64 (packComponents Format.binary64 s e m)
      = s.toBitVec := by
    ext i hi
    obtain rfl : i = 0 := by omega
    have hbit : (s.toBitVec ++ e ++ m).getLsbD 63 = s.toBitVec[0] := by
      rw [BitVec.getLsbD_append, BitVec.getLsbD_append]
      simp
    simp only [unpackSign, packComponents, BitVec.getElem_cast, BitVec.getElem_extract]
    exact hbit
  rw [wordSign, hs]
  cases s <;> rfl

/-- Packing loses nothing of canonical finite parts. -/
theorem unpack_pack_finite (s : Sign) (m : Nat) (e : Int) (hm : 0 < m)
    (h : Canonical (.finite s m e hm)) :
    UnpackedFloat.unpack Format.binary64 (UnpackedFloat.pack Format.binary64 (.finite s m e hm))
      = .finite s m e hm := by
  obtain ⟨hlt, hlow, hhigh, hnormal⟩ := h
  rw [pack_finite, if_neg (by omega), unpack_eq]
  by_cases hsize : 2 ^ 52 ≤ m
  · have hlog : m.log2 = 52 := (Nat.log2_eq_iff hm.ne').2 ⟨hsize, hlt⟩
    have hne : BitVec.ofNat 11 (e + 1075).toNat ≠ -1#11 := by
      rw [ne_eq, BitVec.toNat_eq, BitVec.toNat_ofNat]
      change ¬_ = 2047
      omega
    have hnz : BitVec.ofNat 11 (e + 1075).toNat ≠ 0#11 := by
      rw [ne_eq, BitVec.toNat_eq, BitVec.toNat_ofNat]
      change ¬_ = 0
      omega
    rw [if_pos hlog, wordExponent_packComponents, if_neg hne, if_neg hnz]
    simp only [wordSign_packComponents, wordFraction_packComponents, BitVec.toNat_ofNat,
      UnpackedFloat.finite.injEq, true_and]
    omega
  · have hlog : m.log2 ≠ 52 := fun h => hsize ((Nat.log2_eq_iff hm.ne').1 h).1
    have hnz : BitVec.ofNat 52 m ≠ 0#52 := by
      rw [ne_eq, BitVec.toNat_eq, BitVec.toNat_ofNat]
      change ¬_ = 0
      omega
    rw [if_neg hlog, wordExponent_packComponents, if_neg (by decide), if_pos rfl,
      dif_neg (by simpa using hnz)]
    simp only [wordSign_packComponents, wordFraction_packComponents, BitVec.toNat_ofNat,
      UnpackedFloat.finite.injEq, true_and]
    omega

/-- **Nothing is lost by putting canonical parts together.** -/
theorem parts_ofParts {u : UnpackedFloat} (h : Canonical u) : parts (ofParts u) = u := by
  change UnpackedFloat.unpack Format.binary64 (UnpackedFloat.pack Format.binary64 u) = u
  cases u with
  | infinity s => simp [UnpackedFloat.pack, packedInfinity, unpack_eq]
  | notANumber => rfl
  | zero s => simp [UnpackedFloat.pack, packedZero, unpack_eq]
  | finite s m e hm => exact unpack_pack_finite s m e hm h

theorem parts_ofParts_zero (s : Sign) : parts (ofParts (.zero s)) = .zero s :=
  parts_ofParts (show Canonical (.zero s) from trivial)

/-! ## Sign, order and kind -/

theorem Canonical.neg {u : UnpackedFloat} (h : Canonical u) : Canonical u.neg := by
  cases u <;> exact h

theorem Canonical.abs {u : UnpackedFloat} (h : Canonical u) : Canonical u.abs := by
  cases u <;> exact h

theorem parts_neg (x : Float) : parts (-x) = (parts x).neg :=
  parts_ofParts (canonical_parts x).neg

/-- A number with its sign changed twice is itself. -/
theorem neg_neg (x : Float) : -(-x) = x := by
  apply parts_inj
  rw [parts_neg, parts_neg]
  cases parts x with
  | notANumber => rfl
  | infinity s => cases s <;> rfl
  | zero s => cases s <;> rfl
  | finite s m e hm => cases s <;> rfl

theorem parts_abs (x : Float) : parts x.abs = (parts x).abs :=
  parts_ofParts (canonical_parts x).abs

theorem add_eq_ofParts (x y : Float) :
    x + y = ofParts (UnpackedFloat.add Format.binary64 (parts x) (parts y)) :=
  rfl

theorem sub_eq_ofParts (x y : Float) :
    x - y = ofParts (UnpackedFloat.sub Format.binary64 (parts x) (parts y)) :=
  rfl

theorem beq_eq_parts (x y : Float) : (x == y) = (parts x).beq (parts y) :=
  rfl

theorem isFinite_eq_parts (x : Float) : x.isFinite = (parts x).isFinite :=
  rfl

theorem isNaN_eq_parts (x : Float) : x.isNaN = (parts x).isNaN :=
  rfl

theorem lt_iff_parts (x y : Float) : x < y ↔ (parts x).lt (parts y) = true := by
  change decide ((parts x).lt (parts y) = true) = true ↔ _
  rw [decide_eq_true_iff]

end GrowthOrder.Binary64
