import GrowthOrder.Proofs.Binary64.Order
import GrowthOrder.Proofs.Binary64.Range

/-!
# GrowthOrder.Proofs.Binary64.Positive

What arithmetic does not lose.

* `isFinite_of_add` and the like — a finite result has finite operands, as neither an infinity nor
  a NaN disappears in a sum or a product.
* `pos_iff` — a positive number is the positive infinity or a finite number of positive sign.
* `Reaches` — a number of at least `2 ^ k`.  A sum or a double of such numbers is such a number, as
  no value is rounded to below a power of two that it reaches (`reaches_rounded`).
-/

namespace GrowthOrder.Binary64

open Float.Model (UnpackedFloat Format)
open Float.Model.UnpackedFloat

/-! ## Finite operands -/

theorem mul_eq_ofParts (x y : Float) :
    x * y = ofParts (UnpackedFloat.mul Format.binary64 (parts x) (parts y)) :=
  rfl

/-- What is no finite number is packed as none. -/
theorem not_isFinite_ofParts {u : UnpackedFloat} (h : u.isFinite = false) :
    ¬(ofParts u).isFinite = true := by
  have hcanonical : Canonical u := by
    cases u with
    | finite => exact absurd h (by simp [UnpackedFloat.isFinite])
    | _ => trivial
  rw [isFinite_eq_parts, parts_ofParts hcanonical, h]
  exact Bool.false_ne_true

theorem not_isFinite_infinity : ¬infinity.isFinite = true := by
  decide +kernel

section

variable {u v : UnpackedFloat}

theorem isFinite_add_parts (h : u.isFinite = false ∨ v.isFinite = false) :
    (UnpackedFloat.add Format.binary64 u v).isFinite = false := by
  obtain s | _ | s | _ := u <;> obtain t | _ | t | _ := v <;> (try cases s) <;> (try cases t) <;>
    first | (simp [UnpackedFloat.isFinite] at h; done) | rfl

theorem isFinite_mul_parts (h : u.isFinite = false ∨ v.isFinite = false) :
    (UnpackedFloat.mul Format.binary64 u v).isFinite = false := by
  cases u <;> cases v <;>
    first | (simp [UnpackedFloat.isFinite] at h; done) | rfl

theorem isFinite_div_parts (h : u.isFinite = false) :
    (UnpackedFloat.div Format.binary64 u v).isFinite = false := by
  cases u <;> cases v <;> first | (simp [UnpackedFloat.isFinite] at h; done) | rfl

end

/-- Of two numbers that are not both finite, one is not. -/
theorem isFinite_parts_of_not {x y : Float} (h : ¬(x.isFinite = true ∧ y.isFinite = true)) :
    (parts x).isFinite = false ∨ (parts y).isFinite = false := by
  rwa [not_and_or, Bool.not_eq_true, Bool.not_eq_true, isFinite_eq_parts, isFinite_eq_parts] at h

theorem isFinite_of_add {x y : Float} (h : (x + y).isFinite = true) :
    x.isFinite = true ∧ y.isFinite = true := by
  by_contra hnot
  exact not_isFinite_ofParts (isFinite_add_parts (isFinite_parts_of_not hnot)) h

theorem isFinite_of_mul {x y : Float} (h : (x * y).isFinite = true) :
    x.isFinite = true ∧ y.isFinite = true := by
  by_contra hnot
  exact not_isFinite_ofParts (isFinite_mul_parts (isFinite_parts_of_not hnot)) h

/-- A finite quotient has a finite dividend; its divisor may be infinite. -/
theorem isFinite_of_div {x y : Float} (h : (x / y).isFinite = true) : x.isFinite = true := by
  by_contra hnot
  rw [Bool.not_eq_true, isFinite_eq_parts] at hnot
  exact not_isFinite_ofParts (isFinite_div_parts hnot) h

/-- A finite sum has finite summands. -/
theorem isFinite_of_foldl {β : Type} {f : β → Float} {l : List β} {x : Float}
    (h : (l.foldl (fun sum b => sum + f b) x).isFinite = true) :
    x.isFinite = true ∧ ∀ b ∈ l, (f b).isFinite = true := by
  induction l generalizing x with
  | nil => exact ⟨h, by simp⟩
  | cons b l ih =>
      obtain ⟨hsum, hrest⟩ := ih h
      obtain ⟨hx, hb⟩ := isFinite_of_add hsum
      exact ⟨hx, List.forall_mem_cons.2 ⟨hb, hrest⟩⟩

/-! ## Positive numbers -/

/-- A positive number is the positive infinity or a finite number of positive sign. -/
theorem pos_iff (x : Float) :
    0.0 < x ↔ parts x = .infinity .positive ∨ ∃ m e hm, parts x = .finite .positive m e hm := by
  rw [lt_iff_parts, parts_zero]
  obtain (_ | _) | _ | (_ | _) | ⟨_ | _, m, e, hm⟩ := parts x <;>
    simp [UnpackedFloat.lt, UnpackedFloat.compare]
  exact hm

/-- What is above a positive number is positive. -/
theorem pos_of_lt {x y : Float} (hx : 0.0 < x) (h : x < y) : 0.0 < y := by
  rw [lt_iff_parts] at h
  rw [pos_iff] at hx ⊢
  generalize parts y = v at h ⊢
  obtain hx | ⟨m, e, hm, hx⟩ := hx
  all_goals
    rw [hx] at h
    obtain (_ | _) | _ | (_ | _) | ⟨_ | _, n, f, hn⟩ := v <;>
      simp_all [UnpackedFloat.lt, UnpackedFloat.compare]

theorem isNegative_of_pos {x : Float} (h : 0.0 < x) : ¬isNegative x = true := by
  obtain hx | ⟨m, e, hm, hx⟩ := (pos_iff x).1 h
  · simp [isNegative_of_infinity hx]
  · simp [(magnitude_of_finite hx).2.2]

theorem abs_of_pos {x : Float} (h : 0.0 < x) : Scalar.abs x = x :=
  abs_of_not_isNegative (isNegative_of_pos h)

theorem not_le_of_lt {x y : Float} (h : x < y) : ¬y ≤ x :=
  (lt_iff_not_le (isNaN_of_lt h).1 (isNaN_of_lt h).2).1 h

theorem not_lt_of_lt {x y : Float} (h : x < y) : ¬y < x := by
  rw [lt_iff_parts, UnpackedFloat.lt, ← compare_swap (parts y)] at h
  rw [lt_iff_parts, UnpackedFloat.lt]
  cases hc : (parts y).compare (parts x) with
  | none => simp
  | some o => cases o <;> simp_all [Ordering.swap]

/-- A finite number that is not positive is zero or has a minus sign. -/
theorem isZero_or_isNegative {x : Float} (hfinite : x.isFinite = true) (h : x ≤ 0.0) :
    IsZero x ∨ isNegative x = true := by
  rw [le_iff_parts, parts_zero] at h
  obtain hx | ⟨s, m, e, hm, hx⟩ := parts_of_isFinite hfinite
  · exact .inl hx
  · rw [hx] at h
    rw [(magnitude_of_finite hx).2.2]
    cases s with
    | negative => exact .inr rfl
    | positive => exact absurd h Bool.false_ne_true

/-! ## Products with zero and with powers of two -/

/-- A finite number times zero is zero. -/
theorem isZero_mul {x y : Float} (hx : x.isFinite = true) (hy : IsZero y) : IsZero (x * y) := by
  obtain ⟨t, ht⟩ := hy
  rw [IsZero, mul_eq_ofParts, ht]
  obtain ⟨s, hs⟩ | ⟨s, m, e, hm, hs⟩ := parts_of_isFinite hx
  · rw [hs]
    exact ⟨s * t, parts_ofParts_zero _⟩
  · rw [hs]
    exact ⟨s * t, parts_ofParts_zero _⟩

theorem mul_positive (s : Sign) : s * .positive = s := by
  cases s <;> rfl

/-- `2 ^ j`, as long as its mantissa has 53 bits. -/
def IsPower (j : Nat) (x : Float) : Prop :=
  ∃ hm, parts x = .finite .positive (2 ^ 52) (j - 52) hm

theorem isPower_one : IsPower 0 1.0 := by
  have h : (1.0 : Float) = ofParts (.finite .positive (2 ^ 52) (-52) (by decide)) := by
    decide +kernel
  rw [h]
  exact ⟨_, parts_ofParts ⟨by decide, by decide, by decide, .inl le_rfl⟩⟩

theorem isPower_two : IsPower 1 2.0 := by
  have h : (2.0 : Float) = ofParts (.finite .positive (2 ^ 52) (-51) (by decide)) := by
    decide +kernel
  rw [h]
  exact ⟨_, parts_ofParts ⟨by decide, by decide, by decide, .inl le_rfl⟩⟩

/-- A product with a power of two is rounded after the exponent is shifted. -/
theorem IsPower.mul {x y : Float} {j : Nat} (hy : IsPower j y) {s : Sign} {m : Nat} {e : Int}
    {hm : 0 < m} (hx : parts x = .finite s m e hm) :
    x * y = ofParts (rounded s (m * 2 ^ (e + j))) := by
  obtain ⟨hp, hy⟩ := hy
  have hvalue : ((m : ℚ) * 2 ^ e) * ((2 ^ 52 : Nat) * 2 ^ ((j : Int) - 52)) = m * 2 ^ (e + j) := by
    rw [zpow_sub₀ two_ne_zero, zpow_add₀ two_ne_zero]
    push_cast
    field_simp
  have hgrid : e + ((j : Int) - 52) ≤ grid (m * 2 ^ (e + j)) := by
    have hcanonical := canonical_parts x
    rw [hx] at hcanonical
    obtain ⟨-, -, -, hfull⟩ := hcanonical
    have hlog : 2 ^ 52 ≤ m → 52 ≤ m.log2 := (Nat.le_log2 hm.ne').2
    rw [grid, log_mul_zpow hm]
    omega
  rw [mul_eq_ofParts, hx, hy, mul_finite (by rwa [hvalue]), hvalue, mul_positive]

/-- A number times 1 is that number. -/
theorem mul_one_eq (x : Float) : x * 1.0 = x := by
  have hcanonical := canonical_parts x
  refine Eq.trans ?_ (ofParts_parts x)
  cases hx : parts x with
  | finite s m e hm =>
      rw [hx] at hcanonical
      rw [isPower_one.mul hx, Nat.cast_zero, Int.add_zero, rounded_exact hcanonical]
  | zero s =>
      obtain ⟨hp, hone⟩ := isPower_one
      rw [mul_eq_ofParts, hx, hone]
      exact congrArg (fun s => ofParts (.zero s)) (mul_positive s)
  | infinity s =>
      obtain ⟨hp, hone⟩ := isPower_one
      rw [mul_eq_ofParts, hx, hone]
      exact congrArg (fun s => ofParts (.infinity s)) (mul_positive s)
  | notANumber =>
      rw [mul_eq_ofParts, hx]
      rfl

/-! ## From a power of two on -/

/-- A positive number of at least `2 ^ k`. -/
def Reaches (k : Nat) (x : Float) : Prop :=
  parts x = .infinity .positive ∨
    ∃ m e hm, parts x = .finite .positive m e hm ∧ (k : Int) ≤ e + 52

/-- A power of two reaches itself. -/
theorem IsPower.reaches {k : Nat} {c : Float} (hc : IsPower k c) : Reaches k c := by
  obtain ⟨hm, hc⟩ := hc
  exact .inr ⟨_, _, hm, hc, by omega⟩

/-- A number reaches a power of two if it is not below it. -/
theorem IsPower.reaches_iff {k : Nat} {c x : Float} (hc : IsPower k c) : Reaches k x ↔ c ≤ x := by
  obtain ⟨hp, hc⟩ := hc
  have hcanonical := canonical_parts x
  rw [le_iff_parts, hc, Reaches]
  cases hx : parts x with
  | finite s m e hm =>
      rw [hx] at hcanonical
      obtain ⟨-, -, -, hfull⟩ := hcanonical
      cases s with
      | negative => simp [UnpackedFloat.le, UnpackedFloat.compare]
      | positive =>
          have hcompare : ((compare ((k : Int) - 52) e).then (compare (2 ^ 52) m)).isLE = true ↔
              (k : Int) ≤ e + 52 := by
            obtain hlt | heq | hgt := lt_trichotomy ((k : Int) - 52) e
            · simp [compare_lt_iff_lt.2 hlt]
              omega
            · rw [compare_eq_iff_eq.2 heq]
              change (compare (2 ^ 52) m).isLE = true ↔ _
              rw [Nat.isLE_compare]
              omega
            · simp [compare_gt_iff_gt.2 hgt]
              omega
          simpa [UnpackedFloat.le, UnpackedFloat.compare, hm] using hcompare.symm
  | infinity s => cases s <;> simp [UnpackedFloat.le, UnpackedFloat.compare]
  | zero s => simp [UnpackedFloat.le, UnpackedFloat.compare]
  | notANumber => simp [UnpackedFloat.le, UnpackedFloat.compare]

/-- A finite number that reaches a power of two, by its value. -/
theorem Reaches.exists_value {k : Nat} {x : Float} (h : Reaches k x) :
    parts x = .infinity .positive ∨
      ∃ m e hm, parts x = .finite .positive m e hm ∧ (2 : ℚ) ^ k ≤ m * 2 ^ e := by
  refine h.imp_right fun ⟨m, e, hm, hx, hk⟩ => ⟨m, e, hm, hx, ?_⟩
  have hcanonical := canonical_parts x
  rw [hx] at hcanonical
  obtain ⟨-, -, -, hfull⟩ := hcanonical
  calc
    (2 : ℚ) ^ k = 2 ^ (k : Int) := (zpow_natCast 2 k).symm
    _ ≤ 2 ^ (52 + e) := zpow_le_zpow_right₀ one_le_two (by omega)
    _ = (2 ^ 52 : Nat) * 2 ^ e := by rw [zpow_add₀ two_ne_zero]; norm_num
    _ ≤ m * 2 ^ e := by
      gcongr
      omega

theorem reaches_infinity (k : Nat) : Reaches k (ofParts (.infinity .positive)) :=
  .inl (parts_ofParts (show Canonical (.infinity .positive) from trivial))

/-- What a positive value is rounded to stays as it is when it is packed, or it is out of range. -/
theorem parts_ofParts_rounded (s : Sign) {v : ℚ} (hv : 0 < v) :
    parts (ofParts (rounded s v)) = rounded s v ∨
      parts (ofParts (rounded s v)) = .infinity s := by
  have hle := nearest_grid_le hv
  have hlow := le_grid v
  have hfull := full_or_grid_eq hv
  have hpacked {m : Nat} {e : Int} (hm : 0 < m) (hm' : m < 2 ^ 53) (he : -1074 ≤ e)
      (hfull : 2 ^ 52 ≤ m ∨ e = -1074) :
      parts (ofParts (.finite s m e hm)) = .finite s m e hm ∨
        parts (ofParts (.finite s m e hm)) = .infinity s := by
    obtain hhigh | hhigh := le_or_gt e 971
    · exact .inl (parts_ofParts ⟨hm', he, hhigh, hfull⟩)
    · rw [ofParts_finite_of_lt s hm hhigh]
      exact .inr (parts_ofParts (show Canonical (.infinity s) from trivial))
  unfold rounded scaled
  split_ifs with hzero hcarry
  · exact .inl (parts_ofParts_zero s)
  · exact hpacked (by decide) (by decide) (by omega) (.inl le_rfl)
  · exact hpacked _ (lt_of_le_of_ne hle hcarry) hlow hfull

/-- **Rounding does not go below a power of two.** -/
theorem reaches_rounded {k : Nat} {v : ℚ} (h : 2 ^ k ≤ v) :
    Reaches k (ofParts (rounded .positive v)) := by
  have hv : 0 < v := lt_of_lt_of_le (by positivity) h
  have hlog : (k : Int) ≤ Int.log 2 v :=
    (Int.zpow_le_iff_le_log (by decide) hv).1 (by exact_mod_cast h)
  have hgrid : (k : Int) ≤ grid v + 52 := by
    simp only [grid]
    omega
  have hn := le_nearest hv (by omega)
  obtain hrounded | hinf := parts_ofParts_rounded .positive hv
  · refine .inr ?_
    rw [hrounded, rounded, scaled, dif_neg (by omega)]
    split
    · exact ⟨2 ^ 52, grid v + 1, by decide, rfl, by omega⟩
    · exact ⟨_, grid v, by omega, rfl, hgrid⟩
  · exact .inl hinf

/-! ## Sums and doubles -/

/-- A positive whole number of units is rounded to a positive number. -/
theorem normalize_of_pos {m : Nat} (hm : 0 < m) (e : Int) (s : Sign) :
    UnpackedFloat.normalize Format.binary64 m e s = rounded .positive (m * 2 ^ e) := by
  simp only [UnpackedFloat.normalize, Int.compare_eq_gt.2 (Int.natCast_pos.2 hm),
    Int.toNat_natCast]
  exact round_eq hm e

/-- The sum of two positive finite numbers is rounded once. -/
theorem add_of_positive {m n : Nat} {e f : Int} {hm : 0 < m} {hn : 0 < n} :
    UnpackedFloat.add Format.binary64 (.finite .positive m e hm) (.finite .positive n f hn) =
      rounded .positive (m * 2 ^ e + n * 2 ^ f) := by
  have hadd : UnpackedFloat.add Format.binary64 (.finite .positive m e hm)
      (.finite .positive n f hn) =
      UnpackedFloat.normalize Format.binary64
        ((m <<< (e - min e f).toNat + n <<< (f - min e f).toNat : Nat) : Int)
        (min e f) .positive := rfl
  have hpos : 0 < m <<< (e - min e f).toNat := by
    rw [Nat.shiftLeft_eq]
    positivity
  rw [hadd, normalize_of_pos (Nat.add_pos_left hpos _), ← shiftLeft_mul_zpow m (min_le_left e f),
    ← shiftLeft_mul_zpow n (min_le_right e f), ← add_mul, Nat.cast_add]

theorem Reaches.add {k : Nat} {x y : Float} (hx : Reaches k x) (hy : Reaches k y) :
    Reaches k (x + y) := by
  rw [add_eq_ofParts]
  obtain hx | ⟨m, e, hm, hx, hle⟩ := hx.exists_value
  · obtain hy | ⟨n, f, hn, hy, -⟩ := hy
    · rw [hx, hy]
      exact reaches_infinity k
    · rw [hx, hy]
      exact reaches_infinity k
  · obtain hy | ⟨n, f, hn, hy, -⟩ := hy
    · rw [hx, hy]
      exact reaches_infinity k
    · rw [hx, hy, add_of_positive]
      exact reaches_rounded (le_add_of_le_of_nonneg hle (by positivity))

/-- What is doubled is not less. -/
theorem Reaches.double {k : Nat} {x : Float} (hx : Reaches k x) : Reaches k (x * 2.0) := by
  obtain hx | ⟨m, e, hm, hx, hle⟩ := hx.exists_value
  · obtain ⟨hp, htwo⟩ := isPower_two
    rw [mul_eq_ofParts, hx, htwo]
    exact reaches_infinity k
  · rw [isPower_two.mul hx]
    refine reaches_rounded (hle.trans ?_)
    gcongr
    · exact one_le_two
    · omega

/-- A value that is not negative is not rounded below zero. -/
theorem not_normalize_lt_zero (m : Nat) (e : Int) :
    ¬ofParts (UnpackedFloat.normalize Format.binary64 m e .positive) < 0.0 := by
  rw [lt_iff_parts, parts_zero]
  obtain rfl | hm := m.eq_zero_or_pos
  · have hzero : parts (ofParts (UnpackedFloat.normalize Format.binary64 (0 : Nat) e .positive)) =
        .zero .positive := parts_ofParts_zero .positive
    rw [hzero]
    decide
  · rw [normalize_of_pos hm]
    obtain hrounded | hinf := parts_ofParts_rounded .positive (v := m * 2 ^ e) (by positivity)
    · rw [hrounded, rounded, scaled]
      split_ifs <;> exact Bool.false_ne_true
    · rw [hinf]
      decide

/-- From 1 on there is something left when 1 is taken away. -/
theorem Reaches.not_sub_one_lt_zero {x : Float} (h : Reaches 0 x) : ¬x - 1.0 < 0.0 := by
  obtain ⟨hp, hone⟩ := isPower_one
  rw [sub_eq_ofParts, hone]
  obtain hx | ⟨m, e, hm, hx, hle⟩ := h.exists_value
  · have hinf : parts (ofParts (.infinity .positive)) = .infinity .positive := parts_ofParts trivial
    rw [hx, lt_iff_parts, parts_zero]
    change ¬(parts (ofParts (.infinity .positive))).lt _ = true
    rw [hinf]
    exact Bool.false_ne_true
  · -- in units of the finer of the two grids
    generalize hf : ((0 : Nat) - 52 : Int) = f
    have hsub : UnpackedFloat.sub Format.binary64 (.finite .positive m e hm)
        (.finite .positive (2 ^ 52) f hp) =
        UnpackedFloat.normalize Format.binary64
          ((m <<< (e - min e f).toNat : Nat) - (2 ^ 52 <<< (f - min e f).toNat : Nat) : Int)
          (min e f) .positive := rfl
    have hunits : 2 ^ 52 <<< (f - min e f).toNat ≤ m <<< (e - min e f).toNat := by
      have hvalue : ((2 ^ 52 : Nat) : ℚ) * 2 ^ f = 1 := by
        rw [← hf]
        norm_num
      have hle' : ((2 ^ 52 <<< (f - min e f).toNat : Nat) : ℚ) * 2 ^ min e f ≤
          (m <<< (e - min e f).toNat : Nat) * 2 ^ min e f := by
        rw [shiftLeft_mul_zpow m (min_le_left e f), shiftLeft_mul_zpow _ (min_le_right e f), hvalue]
        simpa using hle
      exact_mod_cast le_of_mul_le_mul_right hle' (zpow_pos two_pos _)
    rw [hx, hsub, ← Nat.cast_sub hunits]
    exact not_normalize_lt_zero _ _

/-- Numbers added up from left to right, none of them below a power of two. -/
theorem Reaches.foldl {k : Nat} {xs : List Float} {x : Float} (hx : Reaches k x)
    (hxs : ∀ y ∈ xs, Reaches k y) : Reaches k (xs.foldl (· + ·) x) := by
  induction xs generalizing x with
  | nil => exact hx
  | cons y ys ih =>
      rw [List.forall_mem_cons] at hxs
      exact ih (hx.add hxs.1) hxs.2

end GrowthOrder.Binary64
