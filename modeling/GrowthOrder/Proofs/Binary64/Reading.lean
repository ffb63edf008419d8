import GrowthOrder.Proofs.Binary64.Rounding

/-!
# GrowthOrder.Proofs.Binary64.Reading

Decimals are read by value.  A decimal `m * 10 ^ e` is read by a multiplication or a division of two
numbers, by table for short decimals and with as many bits as it takes for others.  Either way the
number that comes out is the one nearest to the value, `ofRational`:

* `ofScientific_eq` — reading a decimal is rounding its value once.

So two decimals of the same value are read as the same number, and a decimal whose value is that of
a finite number is read as that number.
-/

namespace GrowthOrder.Binary64

open Float.Model (UnpackedFloat Format totalExponent)
open Float.Model.UnpackedFloat

/-- The number nearest to a non-negative value. -/
def ofRational (v : ℚ) : Float :=
  if v = 0 then ofParts (.zero .positive) else ofParts (rounded .positive v)

/-! ## Products and quotients -/

/-- A product is rounded once, if it has enough bits to begin with. -/
theorem mul_finite {s₁ s₂ : Sign} {m₁ m₂ : Nat} {e₁ e₂ : Int} {h₁ : 0 < m₁} {h₂ : 0 < m₂}
    (he : e₁ + e₂ ≤ grid ((m₁ * 2 ^ e₁) * (m₂ * 2 ^ e₂))) :
    UnpackedFloat.mul Format.binary64 (.finite s₁ m₁ e₁ h₁) (.finite s₂ m₂ e₂ h₂) =
      rounded (s₁ * s₂) ((m₁ * 2 ^ e₁) * (m₂ * 2 ^ e₂)) := by
  have hvalue : ((m₁ : ℚ) * 2 ^ e₁) * (m₂ * 2 ^ e₂) / 2 ^ (e₁ + e₂) = (m₁ * m₂ : Nat) := by
    rw [zpow_add₀ two_ne_zero]
    push_cast
    field_simp
  refine roundWithAccuracy_eq _ (by positivity) ?_ he
  rw [hvalue]
  exact describes_exact _

/-- The position of the leading bit of a quotient is known up to one. -/
theorem le_log_div {m₁ m₂ : Nat} (h₁ : 0 < m₁) (h₂ : 0 < m₂) (e₁ e₂ : Int) :
    (m₁.log2 + e₁) - (m₂.log2 + e₂) - 1 ≤ Int.log 2 ((m₁ : ℚ) * 2 ^ e₁ / (m₂ * 2 ^ e₂)) := by
  have hnum : ((2 : ℚ) ^ (m₁.log2 : Int)) ≤ m₁ := by
    rw [zpow_natCast]
    exact_mod_cast Nat.log2_self_le h₁.ne'
  have hden : (m₂ : ℚ) ≤ (2 : ℚ) ^ ((m₂.log2 : Int) + 1) := by
    rw [← Nat.cast_succ, zpow_natCast]
    exact_mod_cast Nat.lt_log2_self.le
  rw [← Int.zpow_le_iff_le_log one_lt_two (by positivity), le_div_iff₀ (by positivity)]
  calc
    ((2 : Nat) : ℚ) ^ ((m₁.log2 + e₁) - (m₂.log2 + e₂) - 1 : Int) * (m₂ * 2 ^ e₂)
        ≤ 2 ^ ((m₁.log2 + e₁) - (m₂.log2 + e₂) - 1 : Int)
          * (2 ^ ((m₂.log2 : Int) + 1) * 2 ^ e₂) := by
      push_cast
      gcongr
    _ = 2 ^ (m₁.log2 : Int) * 2 ^ e₁ := by
      rw [← zpow_add₀ two_ne_zero, ← zpow_add₀ two_ne_zero, ← zpow_add₀ two_ne_zero]
      congr 1
      ring
    _ ≤ m₁ * 2 ^ e₁ := by gcongr

/-- A quotient is rounded once. -/
theorem div_finite {s₁ s₂ : Sign} {m₁ m₂ : Nat} {e₁ e₂ : Int} {h₁ : 0 < m₁} {h₂ : 0 < m₂} :
    UnpackedFloat.div Format.binary64 (.finite s₁ m₁ e₁ h₁) (.finite s₂ m₂ e₂ h₂) =
      rounded (s₁ / s₂) (m₁ * 2 ^ e₁ / (m₂ * 2 ^ e₂)) := by
  have hlog := le_log_div h₁ h₂ e₁ e₂
  simp only [UnpackedFloat.div, divCore, targetExponent_eq, totalExponent]
  generalize ht : min (e₁ - e₂) (max ((m₁.log2 : Int) + 1 + e₁ - (m₂.log2 + 1 + e₂) - 53) (-1074))
    = t
  have hshift : e₁ - e₂ = ((e₁ - e₂ - t).toNat : Int) + t := by omega
  have hvalue : (m₁ : ℚ) * 2 ^ e₁ / (m₂ * 2 ^ e₂) / 2 ^ t =
      ((m₁ <<< (e₁ - e₂ - t).toNat : Nat) : ℚ) / m₂ := by
    have hsplit : (2 : ℚ) ^ e₁ = 2 ^ e₂ * 2 ^ t * 2 ^ (e₁ - e₂ - t).toNat := by
      rw [← zpow_natCast, ← zpow_add₀ two_ne_zero, ← zpow_add₀ two_ne_zero]
      congr 1
      omega
    rw [Nat.shiftLeft_eq, hsplit]
    push_cast
    field_simp
  refine roundWithAccuracy_eq _ (by positivity) ?_ ?_
  · rw [hvalue]
    exact describes_fraction _ _ h₂
  · simp only [grid]
    omega

/-! ## Whole numbers -/

/-- A mantissa and an exponent are rounded once. -/
theorem round_eq {s : Sign} {m : Nat} (hm : 0 < m) (e : Int) :
    UnpackedFloat.round Format.binary64 s m e = rounded s (m * 2 ^ e) := by
  have hlog := log_mul_zpow hm e
  simp only [UnpackedFloat.round, decreaseExponent, targetExponent_eq, totalExponent]
  generalize ht : (e - max ((m.log2 : Int) + 1 + e - 53) (-1074)).toNat = k
  have hvalue : (m : ℚ) * 2 ^ e / 2 ^ (e - (k : Int)) = (m <<< k : Nat) := by
    rw [Nat.shiftLeft_eq, zpow_sub₀ two_ne_zero, zpow_natCast]
    push_cast
    field_simp
  refine roundWithAccuracy_eq s (by positivity) ?_ ?_
  · rw [hvalue]
    exact describes_exact _
  · simp only [grid, hlog]
    omega

/-! ## Short decimals -/

/-- A number that stands for exactly `v` with all 53 bits of its mantissa in use. -/
def Exactly (x : Float) (v : ℚ) : Prop :=
  ∃ m e hm, parts x = .finite .positive m e hm ∧ 2 ^ 52 ≤ m ∧ (m : ℚ) * 2 ^ e = v

theorem ofRational_of_pos {v : ℚ} (hv : 0 < v) : ofRational v = ofParts (rounded .positive v) :=
  if_neg hv.ne'

theorem Exactly.mul {x y : Float} {v w : ℚ} (hx : Exactly x v) (hy : Exactly y w) :
    x * y = ofRational (v * w) := by
  obtain ⟨m₁, e₁, h₁, hx, hm₁, rfl⟩ := hx
  obtain ⟨m₂, e₂, h₂, hy, hm₂, rfl⟩ := hy
  have hgrid : e₁ + e₂ ≤ grid ((m₁ * 2 ^ e₁) * (m₂ * 2 ^ e₂)) := by
    have hlog : e₁ + e₂ + 104 ≤ Int.log 2 ((m₁ * 2 ^ e₁ : ℚ) * (m₂ * 2 ^ e₂)) := by
      rw [← Int.zpow_le_iff_le_log one_lt_two (by positivity)]
      calc
        ((2 : Nat) : ℚ) ^ (e₁ + e₂ + 104) = (2 ^ 52 * 2 ^ e₁) * (2 ^ 52 * 2 ^ e₂) := by
          push_cast
          rw [zpow_add₀ two_ne_zero, zpow_add₀ two_ne_zero]
          norm_num
          ring
        _ ≤ (m₁ * 2 ^ e₁) * (m₂ * 2 ^ e₂) := by
          gcongr
          · exact_mod_cast hm₁
          · exact_mod_cast hm₂
    simp only [grid]
    omega
  change ofParts (UnpackedFloat.mul Format.binary64 (parts x) (parts y)) = _
  rw [hx, hy, mul_finite hgrid, ofRational_of_pos (by positivity)]
  rfl

theorem Exactly.div {x y : Float} {v w : ℚ} (hx : Exactly x v) (hy : Exactly y w) :
    x / y = ofRational (v / w) := by
  obtain ⟨m₁, e₁, h₁, hx, -, rfl⟩ := hx
  obtain ⟨m₂, e₂, h₂, hy, -, rfl⟩ := hy
  change ofParts (UnpackedFloat.div Format.binary64 (parts x) (parts y)) = _
  rw [hx, hy, div_finite, ofRational_of_pos (by positivity)]
  rfl

theorem Exactly.zero_mul {y : Float} {w : ℚ} (hy : Exactly y w) :
    ofParts (.zero .positive) * y = ofRational 0 := by
  obtain ⟨m, e, h, hy, -⟩ := hy
  change ofParts (UnpackedFloat.mul Format.binary64 (parts (ofParts _)) (parts y)) = _
  rw [hy, parts_ofParts_zero]
  rfl

theorem Exactly.zero_div {y : Float} {w : ℚ} (hy : Exactly y w) :
    ofParts (.zero .positive) / y = ofRational 0 := by
  obtain ⟨m, e, h, hy, -⟩ := hy
  change ofParts (UnpackedFloat.div Format.binary64 (parts (ofParts _)) (parts y)) = _
  rw [hy, parts_ofParts_zero]
  rfl

/-- The mantissa of `m` with all 53 bits in use. -/
def widened (m : Nat) : Nat :=
  m * 2 ^ (52 - m.log2)

theorem widened_bounds {m : Nat} (hm : 0 < m) (h : m < 2 ^ 53) :
    2 ^ 52 ≤ widened m ∧ widened m < 2 ^ 53 := by
  have hlog : m.log2 ≤ 52 := Nat.lt_succ_iff.1 ((Nat.log2_lt hm.ne').2 h)
  have hlow := Nat.log2_self_le hm.ne'
  have hhigh := @Nat.lt_log2_self m
  have h52 : 2 ^ m.log2 * 2 ^ (52 - m.log2) = 2 ^ 52 := by
    rw [← pow_add]
    congr 1
    omega
  have h53 : 2 ^ (m.log2 + 1) * 2 ^ (52 - m.log2) = 2 ^ 53 := by
    rw [← pow_add]
    congr 1
    omega
  exact ⟨h52 ▸ Nat.mul_le_mul_right _ hlow,
    h53 ▸ Nat.mul_lt_mul_of_pos_right hhigh (by positivity)⟩

theorem widened_mul {m : Nat} (hm : 0 < m) (h : m < 2 ^ 53) (e : Int) :
    (widened m : ℚ) * 2 ^ ((m.log2 : Int) - 52 + e) = m * 2 ^ e := by
  have hlog : m.log2 ≤ 52 := Nat.lt_succ_iff.1 ((Nat.log2_lt hm.ne').2 h)
  rw [widened]
  push_cast
  rw [mul_assoc, ← zpow_natCast, ← zpow_add₀ two_ne_zero]
  congr 2
  omega

theorem widened_pos {m : Nat} (hm : 0 < m) : 0 < widened m :=
  Nat.mul_pos hm (by positivity)

/-- The parts of `m * 2 ^ e` with all 53 bits of the mantissa in use. -/
def wide (m : Nat) (hm : 0 < m) (e : Int) : UnpackedFloat :=
  .finite .positive (widened m) ((m.log2 : Int) - 52 + e) (widened_pos hm)

theorem canonical_wide {m : Nat} (hm : 0 < m) (h : m < 2 ^ 53) {e : Int} (hlow : -1022 ≤ e)
    (hhigh : e ≤ 971) : Canonical (wide m hm e) := by
  obtain ⟨hle, hlt⟩ := widened_bounds hm h
  have hlog : m.log2 ≤ 52 := Nat.lt_succ_iff.1 ((Nat.log2_lt hm.ne').2 h)
  exact ⟨hlt, by omega, by omega, .inl hle⟩

theorem exactly_wide {m : Nat} (hm : 0 < m) (h : m < 2 ^ 53) {e : Int} (hlow : -1022 ≤ e)
    (hhigh : e ≤ 971) : Exactly (ofParts (wide m hm e)) (m * 2 ^ e) :=
  ⟨widened m, (m.log2 : Int) - 52 + e, widened_pos hm,
    parts_ofParts (canonical_wide hm h hlow hhigh), (widened_bounds hm h).1, widened_mul hm h e⟩

/-- A whole number of at most 53 bits becomes exactly that number. -/
theorem exactly_toFloat {m : Nat} (hm : 0 < m) (h : m < 2 ^ 53) :
    Exactly m.toUInt64.toFloat m := by
  have hnat : m.toUInt64.toNat = m := by
    rw [Nat.toUInt64_eq, UInt64.toNat_ofNat_of_lt' (h.trans (by decide))]
  have hround : m.toUInt64.toFloat =
      ofParts (UnpackedFloat.round Format.binary64 .positive m 0) := by
    change ofParts
      (UnpackedFloat.normalize Format.binary64 (m.toUInt64.toNat : Int) 0 .positive) = _
    simp only [hnat, UnpackedFloat.normalize, Int.compare_eq_gt.2 (Int.natCast_pos.2 hm),
      Int.toNat_natCast]
  have hcanonical := canonical_wide hm h (by decide : (-1022 : Int) ≤ 0) (by decide)
  have hexact := exactly_wide hm h (by decide : (-1022 : Int) ≤ 0) (by decide)
  rw [hround, round_eq hm, ← widened_mul hm h 0, rounded_exact hcanonical]
  rwa [zpow_zero, mul_one] at hexact

/-- The table of powers of ten holds exactly these powers. -/
theorem powersOfTen_eq : ∀ k : Fin 23, Float.exactlyRepresentablePowersOfTen[k] =
    ofParts (wide (5 ^ k.val) (Nat.pow_pos (by decide)) k.val) := by
  decide +kernel

theorem exactly_powersOfTen {k : Nat} (hk : k < Float.exactlyRepresentablePowersOfTen.size) :
    Exactly Float.exactlyRepresentablePowersOfTen[k] (10 ^ k) := by
  have hk' : k < 23 := hk
  have hlt : 5 ^ k < 2 ^ 53 :=
    (Nat.pow_le_pow_right (by decide) (Nat.lt_succ_iff.1 hk')).trans_lt (by decide)
  have hvalue : ((5 ^ k : Nat) : ℚ) * 2 ^ (k : Int) = 10 ^ k := by
    rw [zpow_natCast]
    push_cast
    rw [← mul_pow]
    norm_num
  have htable := powersOfTen_eq ⟨k, hk'⟩
  simp only [Fin.getElem_fin] at htable
  rw [htable, ← hvalue]
  exact exactly_wide _ hlt (by omega) (by omega)

/-! ## All decimals -/

/-- A decimal with so large an exponent is beyond all numbers. -/
theorem le_of_exponent {m : Nat} (hm : 0 < m) {e : Int} (he : 2048 < e) :
    (2 : ℚ) ^ 1024 ≤ m * 10 ^ e := by
  have hone : (1 : ℚ) ≤ m := by exact_mod_cast hm
  calc
    (2 : ℚ) ^ 1024 ≤ 10 ^ 1024 := by gcongr; norm_num
    _ = 10 ^ (1024 : Int) := by rw [← zpow_natCast, Nat.cast_ofNat]
    _ ≤ 10 ^ e := zpow_le_zpow_right₀ (by norm_num) (by omega)
    _ ≤ m * 10 ^ e := le_mul_of_one_le_left (by positivity) hone

/-- A decimal with so small an exponent is next to zero. -/
theorem lt_of_exponent {m : Nat} {e : Int} (he : e < -(2048 + m.log2)) :
    (m : ℚ) * 10 ^ e < 2 ^ (-1075 : Int) := by
  have hm : (m : ℚ) < 2 ^ ((m.log2 : Int) + 1) := by
    rw [← Nat.cast_succ, zpow_natCast]
    exact_mod_cast Nat.lt_log2_self
  have hten : (10 : ℚ) ^ e ≤ 2 ^ e := by
    obtain ⟨k, rfl⟩ : ∃ k : Nat, e = -k := ⟨e.natAbs, by omega⟩
    rw [zpow_neg, zpow_neg, zpow_natCast, zpow_natCast]
    gcongr
    norm_num
  calc
    (m : ℚ) * 10 ^ e ≤ m * 2 ^ e := by gcongr
    _ < 2 ^ ((m.log2 : Int) + 1) * 2 ^ e := by gcongr
    _ = 2 ^ ((m.log2 : Int) + 1 + e) := (zpow_add₀ two_ne_zero _ _).symm
    _ ≤ 2 ^ (-1075 : Int) := zpow_le_zpow_right₀ (by norm_num) (by omega)

/-- A decimal that is read bit by bit is rounded once. -/
theorem model_ofScientific_eq {m : Nat} (hm : 0 < m) (e : Int) :
    ofParts (UnpackedFloat.ofScientific Format.binary64 m e) = ofRational (m * 10 ^ e) := by
  have hv : (0 : ℚ) < m * 10 ^ e := by positivity
  rw [ofRational_of_pos hv]
  unfold UnpackedFloat.ofScientific
  rw [dif_neg hm.ne']
  split
  · next hbig => exact (ofParts_rounded_of_le .positive (le_of_exponent hm hbig)).symm
  · split
    · next hsmall => rw [rounded_of_lt .positive hv (lt_of_exponent hsmall)]
    · split
      · next h0 =>
        have hvalue : ((m <<< 53 : Nat) * 2 ^ (-53 : Int) : ℚ) *
            ((10 ^ e.toNat : Nat) * 2 ^ (0 : Int)) = m * 10 ^ e := by
          have he : (10 : ℚ) ^ e = 10 ^ e.toNat := by
            rw [← zpow_natCast, Int.toNat_of_nonneg h0]
          rw [Nat.shiftLeft_eq, he]
          push_cast
          rw [zpow_neg]
          norm_num
          field_simp
        have hgrid : (-53 : Int) + 0 ≤ grid (m * 10 ^ e) := by
          have hone : (1 : ℚ) ≤ m * 10 ^ e := by
            have h1 : (1 : ℚ) ≤ m := by exact_mod_cast hm
            exact one_le_mul_of_one_le_of_one_le h1 (one_le_zpow₀ (by norm_num) h0)
          have hlog : 0 ≤ Int.log 2 ((m : ℚ) * 10 ^ e) := by
            rw [← Int.zpow_le_iff_le_log one_lt_two hv, zpow_zero]
            exact hone
          simp only [grid]
          omega
        rw [← hvalue] at hgrid ⊢
        exact congrArg ofParts (mul_finite hgrid)
      · next h0 =>
        have hvalue : (m * 2 ^ (0 : Int) : ℚ) / ((10 ^ (-e).toNat : Nat) * 2 ^ (0 : Int)) =
            m * 10 ^ e := by
          have he : (10 : ℚ) ^ e = ((10 : ℚ) ^ (-e).toNat)⁻¹ := by
            rw [← zpow_natCast, ← zpow_neg]
            congr 1
            omega
          rw [he]
          push_cast
          rw [mul_one, mul_one, div_eq_mul_inv]
        rw [← hvalue]
        exact congrArg ofParts div_finite

/-- **Reading a decimal is rounding its value once.** -/
theorem ofScientific_eq (m : Nat) (s : Bool) (e : Nat) :
    Float.ofScientific m s e =
      ofRational (m * 10 ^ (if s then -(e : Int) else (e : Int))) := by
  unfold Float.ofScientific
  split
  · next h =>
    have hpower := exactly_powersOfTen (show e < 23 by omega)
    obtain rfl | hm := Nat.eq_zero_or_pos m
    · have hfloat : (0 : Nat).toUInt64.toFloat = ofParts (.zero .positive) := by decide +kernel
      rw [Nat.cast_zero, MulZeroClass.zero_mul]
      split
      · rw [hfloat]
        exact hpower.zero_div
      · rw [hfloat]
        exact hpower.zero_mul
    · have hm' := exactly_toFloat hm h.1
      cases s with
      | true =>
          rw [if_pos rfl, if_pos rfl, zpow_neg, zpow_natCast, ← div_eq_mul_inv]
          exact hm'.div hpower
      | false =>
          rw [if_neg Bool.false_ne_true, if_neg Bool.false_ne_true, zpow_natCast]
          exact hm'.mul hpower
  · next h =>
    have hexponent : (if s = true then Int.negOfNat e else Int.ofNat e) =
        if s then -(e : Int) else (e : Int) := by
      cases s
      · rfl
      · exact Int.negOfNat_eq
    obtain rfl | hm := Nat.eq_zero_or_pos m
    · rw [Nat.cast_zero, MulZeroClass.zero_mul, ofRational, if_pos rfl]
      change ofParts (UnpackedFloat.ofScientific Format.binary64 0 _) = _
      rw [UnpackedFloat.ofScientific, dif_pos rfl]
    · rw [← hexponent]
      exact model_ofScientific_eq hm _

end GrowthOrder.Binary64
