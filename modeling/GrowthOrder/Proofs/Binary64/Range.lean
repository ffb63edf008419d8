import GrowthOrder.Proofs.Binary64.Equality

/-!
# GrowthOrder.Proofs.Binary64.Range

When a rounded value is still a number and when it is an infinity.

* `isFinite_ofRational_iff` — a value is rounded to a finite number exactly if it is below `limit`,
  the middle between the greatest number and `2 ^ 1024`.
* `Within.add` — adding one number after another, each of magnitude at most `2 ^ k`, gives `i` of
  them a sum of magnitude at most `min i (2 ^ 53) * 2 ^ k`: from `2 ^ 53 * 2 ^ k` on a further one
  is lost in rounding.  So sums are finite as long as these bounds stay below `2 ^ 1024`, and
  sums of numbers of at most `2 ^ 970` are finite however long they are (`sumBound_lt`).
-/

namespace GrowthOrder.Binary64

open Float.Model (UnpackedFloat Format)
open Float.Model.UnpackedFloat
open Decimal (nearest)

/-! ## The nearest whole number -/

/-- The nearest whole number is at most a half away, and is even where it is a half away. -/
theorem nearest_bounds {w : ℚ} (h0 : 0 ≤ w) :
    (nearest .even w : ℚ) ≤ w + 1 / 2 ∧ w ≤ nearest .even w + 1 / 2 ∧
      (w + 1 / 2 = nearest .even w ∨ w = nearest .even w + 1 / 2 → nearest .even w % 2 = 0) := by
  have hcast : ((⌊w⌋.toNat : Nat) : ℚ) = (⌊w⌋ : ℚ) := by
    exact_mod_cast Int.toNat_of_nonneg (Int.floor_nonneg.2 h0)
  have hle := Int.floor_le w
  have hlt := Int.lt_floor_add_one w
  rw [← hcast] at hle hlt
  have hnearest : nearest .even w =
      if w - (⌊w⌋.toNat : ℚ) < 1 / 2 then ⌊w⌋.toNat
      else if 1 / 2 < w - (⌊w⌋.toNat : ℚ) then ⌊w⌋.toNat + 1
      else ⌊w⌋.toNat + ⌊w⌋.toNat % 2 := rfl
  generalize ⌊w⌋.toNat = m at *
  rw [hnearest]
  split
  · exact ⟨by linarith, by linarith, fun h => by obtain h | h := h <;> linarith⟩
  · split
    · push_cast
      exact ⟨by linarith, by linarith, fun h => by obtain h | h := h <;> linarith⟩
    · have hhalf : w = m + 1 / 2 := by linarith
      obtain hm | hm := Nat.mod_two_eq_zero_or_one m <;> rw [hm] <;> push_cast
      · exact ⟨by linarith, by linarith, fun _ => hm⟩
      · exact ⟨by linarith, by linarith, fun _ => by omega⟩

/-- What is at most a whole number is at most that number when it is rounded. -/
theorem nearest_le_of_le {w : ℚ} {n : Nat} (h0 : 0 ≤ w) (h : w ≤ n) : nearest .even w ≤ n := by
  have hle : (nearest .even w : ℚ) < n + 1 := by linarith [(nearest_bounds h0).1]
  exact Nat.lt_succ_iff.1 (by exact_mod_cast hle)

/-- An even number is not left before the half above it. -/
theorem nearest_le_of_le_half {w : ℚ} {n : Nat} (hn : n % 2 = 0) (h0 : 0 ≤ w)
    (h : w ≤ n + 1 / 2) : nearest .even w ≤ n := by
  obtain ⟨hle, -, htie⟩ := nearest_bounds h0
  by_contra hlt
  have hge : ((n + 1 : Nat) : ℚ) ≤ nearest .even w := by exact_mod_cast Nat.lt_of_not_le hlt
  push_cast at hge
  have heven := htie (.inl (by linarith))
  have hsucc : nearest .even w = n + 1 := by
    have : (nearest .even w : ℚ) = ((n + 1 : Nat) : ℚ) := by push_cast; linarith
    exact_mod_cast this
  omega

/-- An even number is reached from the half below it. -/
theorem nearest_lt_iff {w : ℚ} {n : Nat} (hn : n % 2 = 0) (h0 : 0 ≤ w) :
    nearest .even w < n ↔ w < n - 1 / 2 := by
  obtain ⟨hle, hge, htie⟩ := nearest_bounds h0
  constructor
  · intro h
    have hpred : (nearest .even w : ℚ) + 1 ≤ n := by exact_mod_cast h
    refine lt_of_le_of_ne (by linarith) fun heq => ?_
    have heven := htie (.inr (by linarith))
    have hpred' : nearest .even w + 1 = n := by
      have : ((nearest .even w + 1 : Nat) : ℚ) = n := by push_cast; linarith
      exact_mod_cast this
    omega
  · intro h
    have : (nearest .even w : ℚ) < n := by linarith
    exact_mod_cast this

/-! ## Infinities -/

theorem isInf_eq_parts (x : Float) : x.isInf = (parts x).isInf :=
  rfl

/-- A number is finite, an infinity or a NaN. -/
theorem isFinite_iff (x : Float) : x.isFinite = true ↔ x.isInf = false ∧ x.isNaN = false := by
  rw [isFinite_eq_parts, isInf_eq_parts, isNaN_eq_parts]
  cases parts x <;> simp [UnpackedFloat.isFinite, UnpackedFloat.isInf, UnpackedFloat.isNaN]

theorem eq_of_isInf {x : Float} (h : x.isInf = true) : ∃ s, x = ofParts (.infinity s) := by
  rw [isInf_eq_parts] at h
  cases hx : parts x with
  | infinity s => exact ⟨s, by rw [← hx, ofParts_parts]⟩
  | _ => rw [hx] at h; exact absurd h Bool.false_ne_true

/-! ## Packing -/

theorem isFinite_ofParts_infinity (s : Sign) : (ofParts (.infinity s)).isFinite = false := by
  rw [isFinite_eq_parts, parts_ofParts (show Canonical (.infinity s) from trivial)]
  rfl

/-- Canonical finite parts are a finite number of that magnitude. -/
theorem ofParts_finite {s : Sign} {m : Nat} {e : Int} {hm : 0 < m}
    (h : Canonical (.finite s m e hm)) :
    (ofParts (.finite s m e hm)).isFinite = true ∧
      magnitude (ofParts (.finite s m e hm)) = m * 2 ^ e := by
  have hparts := parts_ofParts h
  obtain ⟨hmantissa, hexponent, -⟩ := magnitude_of_finite hparts
  exact ⟨by rw [isFinite_eq_parts, hparts]; rfl, by rw [magnitude, hmantissa, hexponent]⟩

theorem ofParts_zero (s : Sign) :
    (ofParts (.zero s)).isFinite = true ∧ magnitude (ofParts (.zero s)) = 0 := by
  have hparts := parts_ofParts_zero s
  exact ⟨by rw [isFinite_eq_parts, hparts]; rfl, (magnitude_of_zero hparts).1⟩

/-- Below `2 ^ 1024` the leading bit is below the 1024th. -/
theorem add_lt_of_mul_lt {n k : Nat} {g : Int} (hk : 2 ^ k ≤ n)
    (h : (n : ℚ) * 2 ^ g < 2 ^ 1024) : (k : Int) + g < 1024 := by
  rw [← zpow_lt_zpow_iff_right₀ (one_lt_two (α := ℚ)), zpow_add₀ two_ne_zero, zpow_natCast]
  refine lt_of_le_of_lt ?_ (h.trans_eq (by norm_num))
  gcongr
  exact_mod_cast hk

/-- From `2 ^ 1024` on the leading bit is not below the 1024th. -/
theorem lt_add_of_le_mul {n k : Nat} {g : Int} (hk : n < 2 ^ k)
    (h : (2 : ℚ) ^ 1024 ≤ n * 2 ^ g) : 1024 < (k : Int) + g := by
  rw [← zpow_lt_zpow_iff_right₀ (one_lt_two (α := ℚ)), zpow_add₀ two_ne_zero, zpow_natCast]
  refine lt_of_le_of_lt ((by norm_num : (2 : ℚ) ^ (1024 : Int) = 2 ^ 1024).trans_le h) ?_
  gcongr
  exact_mod_cast hk

/-- `n * 2 ^ g` below `2 ^ 1024` is a finite number of that magnitude. -/
theorem ofParts_scaled {s : Sign} {n : Nat} {g : Int} (hn : n ≤ 2 ^ 53) (hg : -1074 ≤ g)
    (hfull : 2 ^ 52 ≤ n ∨ g = -1074) (h : (n : ℚ) * 2 ^ g < 2 ^ 1024) :
    (ofParts (scaled s n g)).isFinite = true ∧ magnitude (ofParts (scaled s n g)) = n * 2 ^ g := by
  unfold scaled
  split
  · next hzero =>
    rw [hzero, Nat.cast_zero, zero_mul]
    exact ofParts_zero s
  · split
    · next hcarry =>
      have hg' := add_lt_of_mul_lt (k := 53) hcarry.ge h
      have hvalue : ((2 ^ 53 : Nat) : ℚ) * 2 ^ g = (2 ^ 52 : Nat) * 2 ^ (g + 1) := by
        rw [zpow_add_one₀ two_ne_zero]
        push_cast
        ring
      rw [hcarry, hvalue]
      exact ofParts_finite ⟨by decide, by omega, by omega, .inl le_rfl⟩
    · next hne =>
      refine ofParts_finite ⟨lt_of_le_of_ne hn hne, hg, ?_, hfull⟩
      obtain hfull | hfull := hfull
      · have hg' := add_lt_of_mul_lt hfull h
        omega
      · omega

/-- `n * 2 ^ g` from `2 ^ 1024` on is not a finite number. -/
theorem not_isFinite_ofParts_scaled {s : Sign} {n : Nat} {g : Int} (hn : n ≤ 2 ^ 53)
    (h : (2 : ℚ) ^ 1024 ≤ n * 2 ^ g) : ¬(ofParts (scaled s n g)).isFinite = true := by
  rw [Bool.not_eq_true]
  unfold scaled
  split
  · next hzero =>
    rw [hzero, Nat.cast_zero, zero_mul] at h
    exact absurd h (by norm_num)
  · split
    · next hcarry =>
      have hg := lt_add_of_le_mul (k := 54) (hcarry.trans_lt (by decide)) h
      rw [ofParts_finite_of_lt _ _ (by omega)]
      exact isFinite_ofParts_infinity s
    · next hne =>
      have hg := lt_add_of_le_mul (lt_of_le_of_ne hn hne) h
      rw [ofParts_finite_of_lt _ _ (by omega)]
      exact isFinite_ofParts_infinity s

/-! ## Values in range -/

theorem full_or_grid_eq {v : ℚ} (hv : 0 < v) :
    2 ^ 52 ≤ nearest .even (v / 2 ^ grid v) ∨ grid v = -1074 :=
  (le_grid v).lt_or_eq.imp (le_nearest hv) Eq.symm

/-- The middle between the greatest number, `(2 ^ 53 - 1) * 2 ^ 971`, and `2 ^ 1024`. -/
def limit : ℚ :=
  ((2 ^ 53 : Nat) - 1 / 2) * 2 ^ (971 : Int)

theorem limit_pos : 0 < limit :=
  mul_pos (by norm_num) (zpow_pos two_pos _)

theorem two_pow_eq (j k : Nat) (h : j + k = 1024) :
    (2 : ℚ) ^ 1024 = (2 ^ j : Nat) * 2 ^ (k : Int) := by
  rw [← h, pow_add, zpow_natCast, Nat.cast_pow, Nat.cast_ofNat]

theorem limit_lt : limit < 2 ^ 1024 := by
  rw [two_pow_eq 53 971 rfl]
  exact mul_lt_mul_of_pos_right (sub_lt_self _ (by norm_num)) (zpow_pos two_pos _)

/-- With 53 bits on a finer grid than that of the greatest number, the limit is not reached. -/
theorem mul_zpow_lt_limit {g : Int} (hg : g < 971) : ((2 ^ 53 : Nat) : ℚ) * 2 ^ g < limit := by
  have hp : (0 : ℚ) < 2 ^ g := zpow_pos two_pos _
  have hstep : (2 : ℚ) ^ (g + 1) ≤ 2 ^ (971 : Int) := zpow_le_zpow_right₀ one_le_two hg
  calc
    ((2 ^ 53 : Nat) : ℚ) * 2 ^ g < ((2 ^ 53 : Nat) - 1 / 2) * (2 ^ g * 2) := by
      push_cast
      linarith
    _ = ((2 ^ 53 : Nat) - 1 / 2) * 2 ^ (g + 1) := by rw [zpow_add_one₀ two_ne_zero]
    _ ≤ limit := mul_le_mul_of_nonneg_left hstep (by norm_num)

/-- A value stays below `2 ^ 1024` when it is rounded exactly if it is below the limit. -/
theorem nearest_mul_lt_iff {v : ℚ} (hv : 0 < v) :
    (nearest .even (v / 2 ^ grid v) : ℚ) * 2 ^ grid v < 2 ^ 1024 ↔ v < limit := by
  have hp : (0 : ℚ) < 2 ^ grid v := by positivity
  obtain hg | hg | hg := lt_trichotomy (grid v) 971
  · have hreach := mul_zpow_lt_limit hg
    refine iff_of_true (lt_of_le_of_lt ?_ (hreach.trans limit_lt)) (lt_trans ?_ hreach)
    · gcongr
      exact nearest_grid_le hv
    · exact_mod_cast (div_lt_iff₀ hp).1 (div_grid_lt v)
  · -- the greatest number is the last one on this grid
    rw [hg] at hp ⊢
    rw [two_pow_eq 53 971 rfl, Nat.cast_ofNat, mul_lt_mul_iff_left₀ hp, limit, ← div_lt_iff₀ hp]
    exact_mod_cast nearest_lt_iff (by decide) (by positivity)
  · have hreach : (2 : ℚ) ^ 1024 ≤ (2 ^ 52 : Nat) * 2 ^ grid v := by
      rw [two_pow_eq 52 972 rfl]
      exact mul_le_mul_of_nonneg_left (zpow_le_zpow_right₀ (by norm_num) hg) (by positivity)
    have hle : ((2 ^ 52 : Nat) : ℚ) * 2 ^ grid v ≤ v :=
      (le_div_iff₀ hp).1 (le_div_grid hv (by omega))
    have hlimit := limit_lt.le.trans (hreach.trans hle)
    refine iff_of_false (not_lt.2 (hreach.trans ?_)) (not_lt.2 hlimit)
    gcongr
    exact le_nearest hv (by omega)

/-- **A value is rounded to a finite number exactly if it is below the limit.** -/
theorem isFinite_ofRational_iff {v : ℚ} (hv : 0 ≤ v) :
    (ofRational v).isFinite = true ↔ v < limit := by
  obtain rfl | hpos := hv.eq_or_lt
  · rw [ofRational, if_pos rfl]
    exact iff_of_true (ofParts_zero _).1 limit_pos
  · rw [ofRational_of_pos hpos, ← nearest_mul_lt_iff hpos]
    constructor
    · intro h
      by_contra hle
      exact not_isFinite_ofParts_scaled (nearest_grid_le hpos) (not_lt.1 hle) h
    · exact fun h => (ofParts_scaled (nearest_grid_le hpos) (le_grid v) (full_or_grid_eq hpos)
        h).1

/-! ## Bounded numbers -/

/-- A finite number of magnitude at most `b`. -/
structure Within (b : ℚ) (x : Float) : Prop where
  finite : x.isFinite = true
  le : magnitude x ≤ b

theorem Within.mono {x : Float} {a b : ℚ} (h : Within a x) (hab : a ≤ b) : Within b x :=
  ⟨h.finite, h.le.trans hab⟩

theorem isFinite_of_isZero {x : Float} (h : IsZero x) : x.isFinite = true := by
  obtain ⟨s, hs⟩ := h
  rw [isFinite_eq_parts, hs]
  rfl

theorem within_of_isZero {x : Float} {b : ℚ} (h : IsZero x) (hb : 0 ≤ b) : Within b x := by
  obtain ⟨s, hs⟩ := h
  exact ⟨isFinite_of_isZero ⟨s, hs⟩, (magnitude_of_zero hs).1.trans_le hb⟩

theorem Within.same {x y : Float} {b : ℚ} (hy : Within b y) (hb : 0 ≤ b) (h : Same x y) :
    Within b x := by
  obtain rfl | ⟨hx, -⟩ := h
  · exact hy
  · exact within_of_isZero hx hb

theorem Within.neg {x : Float} {b : ℚ} (h : Within b x) : Within b (-x) := by
  refine ⟨(isFinite_neg x).trans h.finite, le_trans (le_of_eq ?_) h.le⟩
  obtain ⟨s, hx⟩ | ⟨s, m, e, hm, hx⟩ := parts_of_isFinite h.finite
  · have hneg : parts (-x) = .zero (-s) := (parts_neg x).trans (congrArg UnpackedFloat.neg hx)
    rw [(magnitude_of_zero hneg).1, (magnitude_of_zero hx).1]
  · have hneg : parts (-x) = .finite (-s) m e hm :=
      (parts_neg x).trans (congrArg UnpackedFloat.neg hx)
    obtain ⟨hmantissa, hexponent, -⟩ := magnitude_of_finite hx
    obtain ⟨hmantissa', hexponent', -⟩ := magnitude_of_finite hneg
    rw [magnitude, magnitude, hmantissa, hexponent, hmantissa', hexponent']

/-! ## Bounded sums -/

/-- Rounding does not leave a bound of at most 53 bits. -/
theorem nearest_mul_le {v : ℚ} {n k : Nat} (hv : 0 < v) (hn : n ≤ 2 ^ 53) (h : v ≤ n * 2 ^ k) :
    (nearest .even (v / 2 ^ grid v) : ℚ) * 2 ^ grid v ≤ n * 2 ^ k := by
  have hp : (0 : ℚ) < 2 ^ grid v := zpow_pos two_pos _
  obtain hg | hg := le_or_gt (grid v) k
  · -- the bound is on the grid of the value
    have hbound : (n : ℚ) * 2 ^ k = (n * 2 ^ ((k : Int) - grid v).toNat : Nat) * 2 ^ grid v := by
      push_cast
      rw [mul_assoc, ← zpow_natCast, ← zpow_natCast, ← zpow_add₀ two_ne_zero]
      congr 2
      omega
    rw [hbound] at h ⊢
    gcongr
    exact nearest_le_of_le (by positivity) ((div_le_iff₀ hp).2 h)
  · -- the bound is a power of two, which the value reaches
    have hlow := (le_div_iff₀ hp).1 (le_div_grid hv (by omega))
    have hhigh : (n : ℚ) * 2 ^ k ≤ (2 ^ 52 : Nat) * 2 ^ grid v := by
      calc
        (n : ℚ) * 2 ^ k ≤ (2 ^ 53 : Nat) * 2 ^ k := by gcongr
        _ = (2 ^ 52 : Nat) * 2 ^ ((k : Int) + 1) := by
          rw [zpow_add_one₀ two_ne_zero, zpow_natCast]
          push_cast
          ring
        _ ≤ (2 ^ 52 : Nat) * 2 ^ grid v :=
          mul_le_mul_of_nonneg_left (zpow_le_zpow_right₀ one_le_two hg) (by positivity)
    refine le_trans ?_ (hlow.trans h)
    gcongr
    exact nearest_le_of_le (by positivity) ((div_le_iff₀ hp).2 (h.trans hhigh))

/-- From `2 ^ 53` units on, one more unit is lost in rounding. -/
theorem nearest_mul_le_of_full {v : ℚ} {k : Nat} (hv : 0 < v)
    (h : v ≤ ((2 ^ 53 : Nat) + 1) * 2 ^ k) :
    (nearest .even (v / 2 ^ grid v) : ℚ) * 2 ^ grid v ≤ (2 ^ 53 : Nat) * 2 ^ k := by
  obtain hle | hgt := le_or_gt v ((2 ^ 53 : Nat) * 2 ^ k)
  · exact nearest_mul_le hv le_rfl hle
  · -- the value is beyond all 53 bits of the grid `k`, and not beyond those of the next one
    have hk : (k : Int) < grid v := by
      rw [← zpow_lt_zpow_iff_right₀ (one_lt_two (α := ℚ)), zpow_natCast]
      have hbelow := (div_lt_iff₀ (zpow_pos two_pos _)).1 (div_grid_lt v)
      push_cast at hgt
      linarith
    have hk' : grid v < (k : Int) + 2 := by
      rw [← zpow_lt_zpow_iff_right₀ (one_lt_two (α := ℚ)), zpow_add₀ two_ne_zero, zpow_natCast]
      have hlow := (le_div_iff₀ (zpow_pos two_pos _)).1 (le_div_grid hv (by omega))
      have hone : (1 : ℚ) ≤ 2 ^ k := one_le_pow₀ one_le_two
      push_cast at h hlow
      linarith
    have hp : (2 : ℚ) ^ grid v = 2 * 2 ^ k := by
      rw [show grid v = k + 1 by omega, zpow_add_one₀ two_ne_zero, zpow_natCast, mul_comm]
    have hpos : (0 : ℚ) < 2 ^ k := by positivity
    have hnearest : nearest .even (v / (2 * 2 ^ k)) ≤ 2 ^ 52 := by
      refine nearest_le_of_le_half (by decide) (by positivity) ?_
      rw [div_le_iff₀ (by positivity)]
      push_cast at h ⊢
      linarith
    rw [hp]
    calc
      (nearest .even (v / (2 * 2 ^ k)) : ℚ) * (2 * 2 ^ k) ≤ (2 ^ 52 : Nat) * (2 * 2 ^ k) := by
        gcongr
      _ = (2 ^ 53 : Nat) * 2 ^ k := by
        push_cast
        ring

/-- What is rounded to a number within a bound below `2 ^ 1024`. -/
theorem within_rounded {v b : ℚ} (s : Sign) (hv : 0 < v)
    (h : (nearest .even (v / 2 ^ grid v) : ℚ) * 2 ^ grid v ≤ b) (hb : b < 2 ^ 1024) :
    Within b (ofParts (rounded s v)) := by
  obtain ⟨hfinite, hvalue⟩ := ofParts_scaled (s := s) (nearest_grid_le hv) (le_grid v)
    (full_or_grid_eq hv) (h.trans_lt hb)
  exact ⟨hfinite, hvalue.trans_le h⟩

/-- A value of at most `2 ^ k` is rounded to a number of magnitude at most `2 ^ k`. -/
theorem within_ofRational {v : ℚ} {k : Nat} (h0 : 0 ≤ v) (h : v ≤ 2 ^ k)
    (hk : (2 : ℚ) ^ k < 2 ^ 1024) : Within (2 ^ k) (ofRational v) := by
  obtain rfl | hpos := h0.eq_or_lt
  · rw [ofRational, if_pos rfl]
    exact within_of_isZero ⟨.positive, parts_ofParts_zero _⟩ (by positivity)
  · rw [ofRational_of_pos hpos]
    refine within_rounded .positive hpos ?_ hk
    simpa using nearest_mul_le hpos (Nat.one_le_two_pow (n := 53)) (by simpa using h)

theorem within_one {k : Nat} (hk : (2 : ℚ) ^ k < 2 ^ 1024) : Within (2 ^ k) 1.0 := by
  have hone : (1.0 : Float) = ofRational 1 := by
    refine (ofScientific_eq 10 true 1).trans (congrArg ofRational ?_)
    norm_num
  rw [hone]
  exact within_ofRational zero_le_one (one_le_pow₀ one_le_two) hk

/-- The bound of a sum of `i` numbers of magnitude at most `2 ^ k`. -/
def sumBound (k i : Nat) : ℚ :=
  (min i (2 ^ 53) : Nat) * 2 ^ k

theorem sumBound_mono (k : Nat) {i j : Nat} (h : i ≤ j) : sumBound k i ≤ sumBound k j := by
  unfold sumBound
  gcongr

theorem two_pow_le_sumBound (k i : Nat) : (2 : ℚ) ^ k ≤ sumBound k (i + 1) := by
  have hone : (1 : ℚ) ≤ (min (i + 1) (2 ^ 53) : Nat) := by
    exact_mod_cast le_min (Nat.succ_le_succ (Nat.zero_le i)) Nat.one_le_two_pow
  exact le_mul_of_one_le_left (by positivity) hone

/-- The bound is in range for any number of summands of at most `2 ^ 970`, and for few larger
ones. -/
theorem sumBound_lt {k i : Nat} (h : k ≤ 970 ∨ i * 2 ^ k < 2 ^ 1024) :
    sumBound k i < 2 ^ 1024 := by
  obtain h | h := h
  · calc
      sumBound k i ≤ (2 ^ 53 : Nat) * 2 ^ k := by
        unfold sumBound
        gcongr
        exact min_le_right i _
      _ = 2 ^ (53 + k) := by
        rw [pow_add]
        push_cast
        rfl
      _ < 2 ^ 1024 := pow_lt_pow_right₀ one_lt_two (by omega)
  · calc
      sumBound k i ≤ i * 2 ^ k := by
        unfold sumBound
        gcongr
        exact min_le_left i _
      _ < 2 ^ 1024 := by exact_mod_cast h

/-- An exact value next to a sum is rounded to a number within the bound of the longer sum. -/
theorem within_rounded_of_le {v : ℚ} {k i : Nat} (s : Sign) (hv : 0 < v)
    (h : v ≤ sumBound k i + 2 ^ k) (hb : sumBound k (i + 1) < 2 ^ 1024) :
    Within (sumBound k (i + 1)) (ofParts (rounded s v)) := by
  refine within_rounded s hv ?_ hb
  rw [sumBound] at h ⊢
  obtain hi | hi := lt_or_ge i (2 ^ 53)
  · rw [min_eq_left hi.le] at h
    rw [min_eq_left (Nat.succ_le_of_lt hi)]
    refine nearest_mul_le hv hi (h.trans_eq ?_)
    push_cast
    ring
  · rw [min_eq_right hi] at h
    rw [min_eq_right (hi.trans (Nat.le_succ i))]
    refine nearest_mul_le_of_full hv (h.trans_eq ?_)
    ring

/-- A whole number of units is rounded once, whatever its sign. -/
theorem normalize_eq {m : Int} (hm : m ≠ 0) (e : Int) (s : Sign) :
    ∃ t, UnpackedFloat.normalize Format.binary64 m e s = rounded t (m.natAbs * 2 ^ e) := by
  obtain hneg | rfl | hpos := lt_trichotomy m 0
  · have habs : (-m).toNat = m.natAbs := by omega
    refine ⟨.negative, ?_⟩
    simp only [UnpackedFloat.normalize, Int.compare_eq_lt.2 hneg, habs]
    exact round_eq (Int.natAbs_pos.2 hm) e
  · exact absurd rfl hm
  · have habs : m.toNat = m.natAbs := by omega
    refine ⟨.positive, ?_⟩
    simp only [UnpackedFloat.normalize, Int.compare_eq_gt.2 hpos, habs]
    exact round_eq (Int.natAbs_pos.2 hm) e

theorem natAbs_apply (s : Sign) (m : Nat) : (s.apply m).natAbs = m := by
  cases s <;> simp [Sign.apply]

/-- Mantissas are brought to a smaller exponent without loss. -/
theorem shiftLeft_mul_zpow (m : Nat) {e f : Int} (h : f ≤ e) :
    ((m <<< (e - f).toNat : Nat) : ℚ) * 2 ^ f = m * 2 ^ e := by
  rw [Nat.shiftLeft_eq]
  push_cast
  rw [mul_assoc, ← zpow_natCast, ← zpow_add₀ two_ne_zero]
  congr 2
  omega

/-- A sum of finite parts is zero or what an exact value is rounded to, of a magnitude that is at
most the sum of theirs. -/
theorem add_finite (s t : Sign) (m n : Nat) (e f : Int) (hm : 0 < m) (hn : 0 < n) :
    (∃ z, UnpackedFloat.add Format.binary64 (.finite s m e hm) (.finite t n f hn) = .zero z) ∨
      ∃ z v, UnpackedFloat.add Format.binary64 (.finite s m e hm) (.finite t n f hn) = rounded z v ∧
        0 < v ∧ v ≤ m * 2 ^ e + n * 2 ^ f := by
  have hadd : UnpackedFloat.add Format.binary64 (.finite s m e hm) (.finite t n f hn) =
      UnpackedFloat.normalize Format.binary64
        (s.apply (m <<< (e - min e f).toNat : Nat) + t.apply (n <<< (f - min e f).toNat : Nat))
        (min e f) .positive := rfl
  rw [hadd]
  have hleft := natAbs_apply s (m <<< (e - min e f).toNat)
  have hright := natAbs_apply t (n <<< (f - min e f).toNat)
  rw [← shiftLeft_mul_zpow m (min_le_left e f), ← shiftLeft_mul_zpow n (min_le_right e f)]
  generalize m <<< (e - min e f).toNat = a at *
  generalize n <<< (f - min e f).toNat = b at *
  by_cases hzero : s.apply (a : Int) + t.apply (b : Int) = 0
  · rw [hzero]
    exact .inl ⟨.positive, rfl⟩
  · obtain ⟨z, hz⟩ := normalize_eq hzero (min e f) .positive
    have hpos := Int.natAbs_pos.2 hzero
    refine .inr ⟨z, _, hz, by positivity, ?_⟩
    rw [← add_mul]
    gcongr
    have hle := Int.natAbs_add_le (s.apply (a : Int)) (t.apply (b : Int))
    rw [hleft, hright] at hle
    exact_mod_cast hle

/-- **A number added to a sum.**  If the sum is one of `i` numbers of magnitude at most `2 ^ k`, and
the number is another such number, then so is the longer sum. -/
theorem Within.add {x y : Float} {k i : Nat} (hx : Within (sumBound k i) x) (hy : Within (2 ^ k) y)
    (hb : sumBound k (i + 1) < 2 ^ 1024) : Within (sumBound k (i + 1)) (x + y) := by
  have hnonneg : 0 ≤ sumBound k (i + 1) := le_trans (by positivity) (two_pow_le_sumBound k i)
  obtain ⟨s, hs⟩ | ⟨s, m, e, hm, hs⟩ := parts_of_isFinite hx.finite
  · rw [add_comm]
    exact (hy.mono (two_pow_le_sumBound k i)).same hnonneg (same_add_zero y ⟨s, hs⟩)
  · obtain ⟨t, ht⟩ | ⟨t, n, f, hn, ht⟩ := parts_of_isFinite hy.finite
    · exact (hx.mono (sumBound_mono k (Nat.le_succ i))).same hnonneg (same_add_zero x ⟨t, ht⟩)
    · obtain ⟨hmantissa, hexponent, -⟩ := magnitude_of_finite hs
      obtain ⟨hmantissa', hexponent', -⟩ := magnitude_of_finite ht
      have hleft := hx.le
      have hright := hy.le
      rw [magnitude, hmantissa, hexponent] at hleft
      rw [magnitude, hmantissa', hexponent'] at hright
      rw [add_eq_ofParts, hs, ht]
      obtain ⟨z, hz⟩ | ⟨z, v, hz, hv, hle⟩ := add_finite s t m n e f hm hn
      · rw [hz]
        obtain ⟨hfinite, hvalue⟩ := ofParts_zero z
        exact ⟨hfinite, hvalue.trans_le hnonneg⟩
      · rw [hz]
        exact within_rounded_of_le z hv (hle.trans (add_le_add hleft hright)) hb

/-- **Numbers added up from left to right.** -/
theorem within_foldl {xs : List Float} {x : Float} {k i : Nat} (hx : Within (sumBound k i) x)
    (hxs : ∀ y ∈ xs, Within (2 ^ k) y) (hb : sumBound k (i + xs.length) < 2 ^ 1024) :
    Within (sumBound k (i + xs.length)) (xs.foldl (· + ·) x) := by
  induction xs generalizing x i with
  | nil => exact hx
  | cons y ys ih =>
      rw [List.forall_mem_cons] at hxs
      rw [List.length_cons, ← Nat.succ_add_eq_add_succ] at hb ⊢
      have hle := sumBound_mono k (Nat.le_add_right (i + 1) ys.length)
      have hstep := hx.add hxs.1 (hle.trans_lt hb)
      exact ih hstep hxs.2 hb

end GrowthOrder.Binary64
