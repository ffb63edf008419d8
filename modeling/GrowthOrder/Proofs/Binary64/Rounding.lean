import GrowthOrder.Decimal.Digits
import GrowthOrder.Proofs.Binary64.Packing

/-!
# GrowthOrder.Proofs.Binary64.Rounding

Rounding of exact values to binary64.  A positive value `v` is rounded to a multiple of
`2 ^ grid v`, the finest grid on which 53 bits reach up to `v`; a half goes to the even neighbour.

The arithmetic of the number type does not see `v` itself but a mantissa with two residual bits.
`Describes` says what these bits mean, every shift keeps that meaning, and so

* `roundWithAccuracy_eq` — what is rounded from any sufficiently long mantissa is `rounded s v`.
-/

namespace GrowthOrder.Binary64

open Float.Model (UnpackedFloat Format totalExponent)
open Float.Model.UnpackedFloat

/-! ## Mantissas with residual bits -/

/-- A mantissa and its residual bits place a value: the mantissa is its whole part, the round bit
says whether a half is reached, the sticky bit whether the value is off both the whole and the
half. -/
structure Describes (em : ExtendedMantissa) (w : ℚ) : Prop where
  le : (em.mantissa : ℚ) ≤ w
  lt : w < em.mantissa + 1
  round : em.roundBit = true ↔ (em.mantissa : ℚ) + 1 / 2 ≤ w
  sticky : em.stickyBit = true ↔ w ≠ em.mantissa ∧ w ≠ em.mantissa + 1 / 2

/-- An exact mantissa places itself. -/
theorem describes_exact (m : Nat) :
    Describes (ExtendedMantissa.ofMantissaAndAccuracy m .exact) m where
  le := le_rfl
  lt := by simp [ExtendedMantissa.ofMantissaAndAccuracy]
  round := by simp [ExtendedMantissa.ofMantissaAndAccuracy]
  sticky := by simp [ExtendedMantissa.ofMantissaAndAccuracy]

/-- The whole part of a quotient and what is left over place the quotient. -/
theorem describes_fraction (n d : Nat) (hd : 0 < d) :
    Describes (ExtendedMantissa.ofMantissaAndAccuracy (n / d) (accuracyOfFraction (n % d) d))
      ((n : ℚ) / d) := by
  have hd' : (0 : ℚ) < d := by exact_mod_cast hd
  have hlt : ((n % d : Nat) : ℚ) < d := by exact_mod_cast Nat.mod_lt n hd
  have hsplit : (n : ℚ) / d = (n / d : Nat) + ((n % d : Nat) : ℚ) / d := by
    have h : (n : ℚ) = d * (n / d : Nat) + (n % d : Nat) := by
      exact_mod_cast (Nat.div_add_mod n d).symm
    rw [h]
    field_simp
  have hnonneg : (0 : ℚ) ≤ ((n % d : Nat) : ℚ) / d := by positivity
  have hlt_one : ((n % d : Nat) : ℚ) / d < 1 := by rwa [div_lt_one hd']
  have hhalf : (1 : ℚ) / 2 ≤ ((n % d : Nat) : ℚ) / d ↔ d ≤ 2 * (n % d) := by
    rw [div_le_div_iff₀ two_pos hd', one_mul, mul_comm]
    exact_mod_cast Iff.rfl
  have hhalf_eq : ((n % d : Nat) : ℚ) / d = 1 / 2 ↔ 2 * (n % d) = d := by
    rw [div_eq_div_iff hd'.ne' two_ne_zero, one_mul, mul_comm]
    exact_mod_cast Iff.rfl
  have hzero : ((n % d : Nat) : ℚ) / d = 0 ↔ n % d = 0 := by
    rw [div_eq_zero_iff, or_iff_left hd'.ne']
    exact_mod_cast Iff.rfl
  rw [hsplit]
  generalize ((n % d : Nat) : ℚ) / d = f at *
  unfold accuracyOfFraction
  by_cases h0 : n % d = 0
  · have hf : f = 0 := hzero.2 h0
    rw [if_pos h0, hf, add_zero]
    exact describes_exact _
  · have hf : f ≠ 0 := fun h => h0 (hzero.1 h)
    rw [if_neg h0]
    obtain h | h | h := lt_trichotomy (2 * (n % d)) d
    · have hc : compare (2 * (n % d)) d = .lt := Nat.compare_eq_lt.2 h
      constructor <;> simp [hc, ExtendedMantissa.ofMantissaAndAccuracy, hf] <;> grind
    · have hc : compare (2 * (n % d)) d = .eq := Nat.compare_eq_eq.2 h
      constructor <;> simp [hc, ExtendedMantissa.ofMantissaAndAccuracy] <;> grind
    · have hc : compare (2 * (n % d)) d = .gt := Nat.compare_eq_gt.2 h
      constructor <;> simp [hc, ExtendedMantissa.ofMantissaAndAccuracy] <;> grind

/-- A shift by one bit halves the value that is placed. -/
theorem Describes.shiftRightOne {em : ExtendedMantissa} {w : ℚ} (h : Describes em w) :
    Describes em.shiftRightOne (w / 2) := by
  obtain ⟨m, r, s⟩ := em
  obtain ⟨hle, hlt, hround, hsticky⟩ := h
  have hsplit : (m : ℚ) = 2 * (m / 2 : Nat) + (m % 2 : Nat) := by
    exact_mod_cast (Nat.div_add_mod m 2).symm
  simp only at hle hlt hround hsticky
  obtain hm | hm := Nat.mod_two_eq_zero_or_one m <;> rw [hm] at hsplit <;>
    constructor <;> simp only [ExtendedMantissa.shiftRightOne, hm] <;> grind

/-- A shift by `n` bits divides the value that is placed by `2 ^ n`. -/
theorem Describes.shiftRight {em : ExtendedMantissa} {w : ℚ} (h : Describes em w) (n : Nat) :
    Describes (em >>> n) (w / 2 ^ n) := by
  change Describes (n.repeat ExtendedMantissa.shiftRightOne em) _
  induction n with
  | zero => simpa [Nat.repeat] using h
  | succ n ih =>
      rw [pow_succ, ← div_div]
      exact ih.shiftRightOne

/-- The rounded mantissa is the nearest whole number, a half going to the even one. -/
theorem Describes.roundedMantissa {em : ExtendedMantissa} {w : ℚ} (h : Describes em w) :
    em.roundedMantissa = Decimal.nearest .even w := by
  have hfloor : w.floor.toNat = em.mantissa := by
    have hwhole : ⌊w⌋ = (em.mantissa : Int) :=
      Int.floor_eq_iff.2 ⟨by exact_mod_cast h.le, by exact_mod_cast h.lt⟩
    change ⌊w⌋.toNat = em.mantissa
    rw [hwhole, Int.toNat_natCast]
  obtain ⟨m, r, s⟩ := em
  obtain ⟨hle, hlt, hround, hsticky⟩ := h
  simp only [Decimal.nearest, hfloor]
  cases r <;> cases s <;>
    simp only [ExtendedMantissa.roundedMantissa, ExtendedMantissa.accuracy,
      Accuracy.roundToNearestEven] <;> grind

/-! ## The grid of a value -/

/-- The exponent of the finest grid on which 53 bits reach up to a positive value. -/
def grid (v : ℚ) : Int :=
  max (Int.log 2 v - 52) (-1074)

theorem le_grid (v : ℚ) : -1074 ≤ grid v :=
  le_max_right _ _

theorem targetExponent_eq (t : Int) :
    Format.binary64.targetExponent t = max (t - 53) (-1074) :=
  rfl

/-- The position of the leading bit of a whole part is that of the value. -/
theorem log_eq_of_describes {em : ExtendedMantissa} {v : ℚ} {e : Int} (hv : 0 < v)
    (hm : em.mantissa ≠ 0) (h : Describes em (v / 2 ^ e)) :
    Int.log 2 v = em.mantissa.log2 + e := by
  have hp : (0 : ℚ) < 2 ^ e := by positivity
  have hlow : ((2 ^ em.mantissa.log2 : Nat) : ℚ) ≤ v / 2 ^ e :=
    le_trans (by exact_mod_cast Nat.log2_self_le hm) h.le
  have hhigh : v / 2 ^ e < ((2 ^ (em.mantissa.log2 + 1) : Nat) : ℚ) := by
    refine lt_of_lt_of_le h.lt ?_
    exact_mod_cast Nat.lt_log2_self
  have hlog : Int.log 2 v < em.mantissa.log2 + e + 1 := by
    rw [← Int.lt_zpow_iff_log_lt (by decide) hv]
    rw [div_lt_iff₀ hp] at hhigh
    refine hhigh.trans_eq ?_
    push_cast
    rw [← zpow_natCast, ← zpow_add₀ two_ne_zero]
    congr 1
    push_cast
    ring
  have hlog' : em.mantissa.log2 + e ≤ Int.log 2 v := by
    rw [← Int.zpow_le_iff_le_log (by decide) hv]
    rw [le_div_iff₀ hp] at hlow
    refine le_trans (le_of_eq ?_) hlow
    push_cast
    rw [← zpow_natCast, ← zpow_add₀ two_ne_zero]
  omega

/-- The grid is found from the whole part if that is long enough. -/
theorem targetExponent_of_describes {em : ExtendedMantissa} {v : ℚ} {e : Int} (hv : 0 < v)
    (h : Describes em (v / 2 ^ e)) (he : e ≤ grid v) :
    Format.binary64.targetExponent (totalExponent em.mantissa e) = grid v := by
  by_cases hm : em.mantissa = 0
  · -- the value is below `2 ^ e`, so the grid is the finest one there is
    have hlt := h.lt
    rw [hm, Nat.cast_zero, zero_add, div_lt_one (by positivity)] at hlt
    have hlog : Int.log 2 v < e := (Int.lt_zpow_iff_log_lt (by decide) hv).1 hlt
    have hlog2 : Nat.log2 0 = 0 := rfl
    simp only [grid] at he
    simp only [targetExponent_eq, totalExponent, hm, hlog2, grid]
    omega
  · have hlog := log_eq_of_describes hv hm h
    simp only [targetExponent_eq, totalExponent, grid]
    omega

/-! ## Rounding to the grid -/

/-- `n * 2 ^ g` as parts, where `n` has at most 53 bits or is the next number after these. -/
def scaled (s : Sign) (n : Nat) (g : Int) : UnpackedFloat :=
  if h : n = 0 then .zero s
  else if n = 2 ^ 53 then .finite s (2 ^ 52) (g + 1) (by decide)
  else .finite s n g (Nat.pos_of_ne_zero h)

/-- The parts that a positive value is rounded to: the nearest number on its grid, a half going to
the even neighbour. -/
def rounded (s : Sign) (v : ℚ) : UnpackedFloat :=
  scaled s (Decimal.nearest .even (v / 2 ^ grid v)) (grid v)

/-- On its grid a value takes at most 53 bits. -/
theorem div_grid_lt (v : ℚ) : v / 2 ^ grid v < 2 ^ 53 := by
  have hgrid : Int.log 2 v + 1 ≤ 53 + grid v := by simp only [grid]; omega
  rw [div_lt_iff₀ (by positivity)]
  calc
    v < 2 ^ (Int.log 2 v + 1) := Int.lt_zpow_succ_log_self (by decide) v
    _ ≤ 2 ^ (53 + grid v) := zpow_le_zpow_right₀ (by norm_num) hgrid
    _ = 2 ^ 53 * 2 ^ grid v := by rw [zpow_add₀ two_ne_zero]; norm_num

/-- The nearest whole number is at most the next one above. -/
theorem nearest_le {w : ℚ} {n : Nat} (h0 : 0 ≤ w) (h : w < n) :
    Decimal.nearest .even w ≤ n := by
  have hlt : ⌊w⌋ < (n : Int) := Int.floor_lt.2 (by exact_mod_cast h)
  have hnonneg : 0 ≤ ⌊w⌋ := Int.floor_nonneg.2 h0
  have hbelow : w.floor.toNat + 1 ≤ n := by
    change ⌊w⌋.toNat + 1 ≤ n
    omega
  simp only [Decimal.nearest]
  split
  · omega
  · split <;> omega

/-- On its grid a value is rounded to at most 53 bits, or the next number after these. -/
theorem nearest_grid_le {v : ℚ} (hv : 0 < v) : Decimal.nearest .even (v / 2 ^ grid v) ≤ 2 ^ 53 :=
  nearest_le (by positivity) (by exact_mod_cast div_grid_lt v)

/-- A mantissa that is exact and short enough is only brought to its grid. -/
theorem shiftToTargetExponent_exact {n : Nat} {g : Int} (hn : n ≤ 2 ^ 53) (hg : -1074 ≤ g) :
    shiftToTargetExponent Format.binary64 n g .exact =
      if n = 2 ^ 53 then (⟨2 ^ 52, false, false⟩, g + 1) else (⟨n, false, false⟩, g) := by
  simp only [shiftToTargetExponent, shiftToExponent, targetExponent_eq]
  split
  · next h =>
    have hlog : Nat.log2 (2 ^ 53) = 53 := Nat.log2_two_pow
    have hshift : (max (totalExponent (2 ^ 53) g - 53) (-1074) - g).toNat = 1 := by
      simp only [totalExponent, hlog]
      omega
    rw [h, hshift]
    rfl
  · next h =>
    have hlog : n.log2 ≤ 52 := by
      by_cases hz : n = 0
      · rw [hz]
        decide
      · have := (Nat.log2_lt hz).2 (show n < 2 ^ 53 by omega)
        omega
    have hshift : (max (totalExponent n g - 53) (-1074) - g).toNat = 0 := by
      simp only [totalExponent]
      omega
    rw [hshift]
    change (_, g + 0) = _
    rw [add_zero]
    rfl

/-- A short mantissa on its grid, as parts. -/
theorem dite_eq_scaled {s : Sign} {n : Nat} {g : Int} {p : ExtendedMantissa × Int}
    (hp : p = if n = 2 ^ 53 then (⟨2 ^ 52, false, false⟩, g + 1) else (⟨n, false, false⟩, g)) :
    (if h : p.1.mantissa = 0 then UnpackedFloat.zero s
      else .finite s p.1.mantissa p.2 (Nat.pos_of_ne_zero h)) = scaled s n g := by
  subst hp
  by_cases h53 : n = 2 ^ 53
  · simp [scaled, h53]
  · simp only [scaled, if_neg h53]

/-- **Rounding sees only the value.**  A mantissa with residual bits that place `v`, long enough to
reach down to the grid of `v`, is rounded to what `v` is rounded to. -/
theorem roundWithAccuracy_eq {v : ℚ} {m : Nat} {e : Int} {acc : Accuracy} (s : Sign) (hv : 0 < v)
    (h : Describes (ExtendedMantissa.ofMantissaAndAccuracy m acc) (v / 2 ^ e))
    (he : e ≤ grid v) : roundWithAccuracy Format.binary64 s m e acc = rounded s v := by
  have hm : (ExtendedMantissa.ofMantissaAndAccuracy m acc).mantissa = m := by
    obtain _ | (_ | _ | _) := acc <;> rfl
  have hgrid := targetExponent_of_describes hv h he
  have hshift : e + ((grid v - e).toNat : Int) = grid v := by omega
  have hround := (h.shiftRight (grid v - e).toNat).roundedMantissa
  rw [div_div, ← zpow_natCast, ← zpow_add₀ two_ne_zero, hshift] at hround
  rw [hm] at hgrid
  have hfirst : shiftToTargetExponent Format.binary64 m e acc =
      (ExtendedMantissa.ofMantissaAndAccuracy m acc >>> (grid v - e).toNat, grid v) := by
    simp only [shiftToTargetExponent, shiftToExponent, hgrid, hshift]
  simp only [roundWithAccuracy, hfirst, hround]
  exact dite_eq_scaled (shiftToTargetExponent_exact (nearest_grid_le hv) (le_grid v))

/-! ## Values that are numbers -/

/-- A whole number is its own nearest whole number. -/
theorem nearest_natCast (n : Nat) : Decimal.nearest .even (n : ℚ) = n := by
  have h := (describes_exact n).roundedMantissa
  exact h.symm

/-- The leading bit of a mantissa and an exponent. -/
theorem log_mul_zpow {m : Nat} (hm : 0 < m) (e : Int) :
    Int.log 2 ((m : ℚ) * 2 ^ e) = m.log2 + e := by
  have hv : (0 : ℚ) < m * 2 ^ e := by positivity
  have hd : Describes (ExtendedMantissa.ofMantissaAndAccuracy m .exact) (m * 2 ^ e / 2 ^ e) := by
    rw [mul_div_cancel_right₀ _ (by positivity : (2 : ℚ) ^ e ≠ 0)]
    exact describes_exact m
  exact log_eq_of_describes hv hm.ne' hd

/-- **A value that is a number is rounded to that number.** -/
theorem rounded_exact {s : Sign} {m : Nat} {e : Int} {hm : 0 < m}
    (h : Canonical (.finite s m e hm)) : rounded s (m * 2 ^ e) = .finite s m e hm := by
  obtain ⟨hlt, hlow, hhigh, hnormal⟩ := h
  have hlog : m.log2 ≤ 52 := Nat.lt_succ_iff.1 ((Nat.log2_lt hm.ne').2 hlt)
  have hlog' : 2 ^ 52 ≤ m → 52 ≤ m.log2 := (Nat.le_log2 hm.ne').2
  have hgrid : grid (m * 2 ^ e) = e := by
    rw [grid, log_mul_zpow hm]
    omega
  rw [rounded, hgrid, mul_div_cancel_right₀ _ (by positivity : (2 : ℚ) ^ e ≠ 0), nearest_natCast,
    scaled, dif_neg hm.ne', if_neg hlt.ne]

/-! ## Values out of range -/

/-- Where the grid is not the finest one, a value takes all 53 bits. -/
theorem le_div_grid {v : ℚ} (hv : 0 < v) (hg : -1074 < grid v) :
    ((2 ^ 52 : Nat) : ℚ) ≤ v / 2 ^ grid v := by
  have hgrid : grid v = Int.log 2 v - 52 := by simp only [grid] at hg ⊢; omega
  rw [le_div_iff₀ (by positivity), hgrid]
  refine le_trans (le_of_eq ?_) (Int.zpow_log_le_self one_lt_two hv)
  push_cast
  rw [zpow_sub₀ two_ne_zero]
  norm_num
  field_simp

/-- Where the grid is not the finest one, rounding keeps all 53 bits. -/
theorem le_nearest {v : ℚ} (hv : 0 < v) (hg : -1074 < grid v) :
    2 ^ 52 ≤ Decimal.nearest .even (v / 2 ^ grid v) := by
  have hlow := le_div_grid hv hg
  have hfloor : (2 ^ 52 : Nat) ≤ (v / 2 ^ grid v).floor.toNat := by
    have hle : ((2 ^ 52 : Nat) : Int) ≤ ⌊v / 2 ^ grid v⌋ := Int.le_floor.2 (by exact_mod_cast hlow)
    change 2 ^ 52 ≤ ⌊v / 2 ^ grid v⌋.toNat
    omega
  simp only [Decimal.nearest]
  split
  · exact hfloor
  · split <;> omega

/-- Two forms that are packed into the same word are the same double. -/
theorem ofParts_congr {u u' : UnpackedFloat}
    (h : u.pack Format.binary64 = u'.pack Format.binary64) : ofParts u = ofParts u' := by
  have hmodel : Float.Model.pack u = Float.Model.pack u' := by
    simp only [Float.Model.pack, h]
  rw [ofParts, ofParts, hmodel]

/-- Parts with too large an exponent are packed as an infinity. -/
theorem ofParts_finite_of_lt (s : Sign) {m : Nat} {e : Int} (hm : 0 < m) (h : 971 < e) :
    ofParts (.finite s m e hm) = ofParts (.infinity s) := by
  refine ofParts_congr ?_
  rw [pack_finite, if_pos (by omega)]
  rfl

/-- A value of `2 ^ 1024` or more is rounded to what is packed as an infinity. -/
theorem ofParts_rounded_of_le {v : ℚ} (s : Sign) (h : 2 ^ 1024 ≤ v) :
    ofParts (rounded s v) = ofParts (.infinity s) := by
  have hv : 0 < v := lt_of_lt_of_le (by norm_num) h
  have hlog : (1024 : Int) ≤ Int.log 2 v :=
    (Int.zpow_le_iff_le_log (by decide) hv).1 (by exact_mod_cast h)
  have hgrid : 972 ≤ grid v := by simp only [grid]; omega
  have hn := le_nearest hv (by omega)
  unfold rounded scaled
  rw [dif_neg (by omega)]
  split
  · exact ofParts_finite_of_lt s _ (by omega)
  · exact ofParts_finite_of_lt s _ (by omega)

/-- A value below `2 ^ (-1075)` is rounded to zero. -/
theorem rounded_of_lt {v : ℚ} (s : Sign) (hv : 0 < v) (h : v < 2 ^ (-1075 : Int)) :
    rounded s v = .zero s := by
  have hlog : Int.log 2 v < -1075 := (Int.lt_zpow_iff_log_lt (by decide) hv).1 (by exact_mod_cast h)
  have hgrid : grid v = -1074 := by simp only [grid]; omega
  have hhalf : v / 2 ^ (-1074 : Int) < 1 / 2 := by
    rw [div_lt_iff₀ (by positivity)]
    refine h.trans_eq ?_
    rw [show (-1074 : Int) = -1075 + 1 by norm_num, zpow_add_one₀ two_ne_zero, mul_comm (1 / 2),
      mul_assoc, mul_one_div_cancel two_ne_zero, mul_one]
  have hfloor : (v / 2 ^ (-1074 : Int)).floor.toNat = 0 := by
    have hz : ⌊v / 2 ^ (-1074 : Int)⌋ = 0 :=
      Int.floor_eq_iff.2 ⟨by exact_mod_cast (div_pos hv (zpow_pos two_pos _)).le, by
        rw [Int.cast_zero]
        linarith⟩
    change ⌊v / 2 ^ (-1074 : Int)⌋.toNat = 0
    rw [hz]
    rfl
  have hnearest : Decimal.nearest .even (v / 2 ^ (-1074 : Int)) = 0 := by
    simp only [Decimal.nearest, hfloor, Nat.cast_zero, sub_zero, if_pos hhalf]
  rw [rounded, hgrid, hnearest, scaled, dif_pos rfl]

end GrowthOrder.Binary64
