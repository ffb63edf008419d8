import GrowthOrder.Decimal.Ceiling
import GrowthOrder.Proofs.Decimal.Shortest
import GrowthOrder.Proofs.Binary64.Rounding
import GrowthOrder.Proofs.SignedZero
import Mathlib.Data.List.DropRight

/-!
# GrowthOrder.Proofs.Decimal.Ceiling

Numbers as they are shown, in exact arithmetic: scaling by a power of ten and back loses nothing.
What is shown is a plain decimal without needless zeros, and its value is rounded up but for the
noise of a few units in the last place.  Zeros have their signs, and none of these signs is shown.

The exponent of the power is the count of decimals, cut to 32 bits.  It is that count below
`2 ^ 31`, and less from there on, so that a number is rounded up too far.

* `units_bounds` — how far a scaled number is from the whole number that it is shown as.
* `fixed_finite` — the fixed-point text of a number is a signed literal.
* `trimFraction_spelling` — trimming drops the zeros that end a fraction, and nothing else.
* `ceiling_shown_iff` — what these come to, and for which counts of decimals.
-/

namespace GrowthOrder

namespace Decimal

/-! ## Rounding up -/

/-- **A scaled number is shown as a whole number that is less than 1 above, and not below but for
noise.** -/
theorem units_bounds (x : Exact ℚ) :
    ∃ n : ℤ, (units x).val = n ∧
      x.val - 4 * 2 ^ (-52 : ℤ) * |x.val| ≤ n ∧ (n : ℚ) < x.val + 1 := by
  have hnoise : (Scalar.abs x * 4.0 * Scalar.epsilon : Exact ℚ).val =
      4 * 2 ^ (-52 : ℤ) * |x.val| := by
    have hepsilon : (Scalar.epsilon : Exact ℚ).val = 2 ^ (-52 : ℤ) := by
      rw [Scalar.epsilon, Exact.val_div, Exact.val_ofScientific, Exact.val_ofScientific]
      norm_num
    have hfour : (4.0 : Exact ℚ).val = 4 := by
      rw [Exact.val_ofScientific]
      norm_num
    rw [Exact.val_mul, Exact.val_mul, Exact.val_abs, hepsilon, hfour]
    ring
  obtain ⟨n, hn, hnear⟩ := Exact.exists_round x
  rw [units]
  split
  · next h =>
    -- the nearest whole number, which only noise keeps the number from being
    rw [Exact.le_iff, Exact.val_abs, Exact.val_sub, hn, hnoise] at h
    have hbelow := (abs_le.1 h).2
    have habove := (abs_le.1 hnear).1
    exact ⟨n, hn, by linarith, by linarith⟩
  · have hpos : 0 ≤ 4 * 2 ^ (-52 : ℤ) * |x.val| := by positivity
    exact ⟨⌈x.val⌉, Exact.val_ceil x, by linarith [Int.le_ceil x.val], Int.ceil_lt_add_one x.val⟩

theorem exact_units (x : Signed) : (units x).exact = units x.exact := by
  have hnear : Scalar.abs (x - Scalar.round x) ≤ Scalar.abs x * 4.0 * Scalar.epsilon ↔
      Scalar.abs (x.exact - Scalar.round x.exact) ≤
        Scalar.abs x.exact * 4.0 * Scalar.epsilon := by
    simp [Signed.le_iff, Scalar.epsilon]
  simp only [units, apply_ite Signed.exact, hnear, Signed.exact_round, Signed.exact_ceil]

/-! ## Fixed-point text -/

/-- The digits of `n` with the point in front of the last `places` of them. -/
def fixedLiteral (places n : Nat) : Literal :=
  let ds := paddedDigits (places + 1) n
  ⟨ds.take (ds.length - places), ds.drop (ds.length - places)⟩

theorem length_paddedDigits (k n : Nat) :
    (paddedDigits k n).length = max k (digitsOf n).length := by
  rw [paddedDigits, List.length_append, List.length_replicate]
  omega

theorem isDigit_of_mem_paddedDigits {k n : Nat} {c : Char} (h : c ∈ paddedDigits k n) :
    c.isDigit = true := by
  obtain h | h := List.mem_append.1 h
  · rw [List.eq_of_mem_replicate h]
    decide
  · exact isDigit_of_mem_digitsOf h

theorem natural_paddedDigits (k n : Nat) : Literal.natural (paddedDigits k n) = n := by
  rw [paddedDigits, Literal.natural_zeros_append, Literal.natural_digitsOf]

theorem length_fraction_fixedLiteral (places n : Nat) :
    (fixedLiteral places n).fraction.length = places := by
  have hlength := length_paddedDigits (places + 1) n
  rw [fixedLiteral, List.length_drop]
  omega

theorem isNumeral_fixedLiteral (places n : Nat) : (fixedLiteral places n).IsNumeral where
  ne_nil := by
    have hlength := length_paddedDigits (places + 1) n
    refine List.ne_nil_of_length_pos ?_
    rw [fixedLiteral, List.length_take]
    omega
  whole _ hc := isDigit_of_mem_paddedDigits (List.mem_of_mem_take hc)
  fraction _ hc := isDigit_of_mem_paddedDigits (List.mem_of_mem_drop hc)

theorem rational_fixedLiteral (places n : Nat) :
    (fixedLiteral places n).rational = n * 10 ^ (-(places : ℤ)) := by
  have hdigits : (fixedLiteral places n).whole ++ (fixedLiteral places n).fraction =
      paddedDigits (places + 1) n := List.take_append_drop _ _
  rw [Literal.rational, hdigits, natural_paddedDigits, length_fraction_fixedLiteral]

/-- Only zero is written with a leading zero. -/
theorem eq_of_head?_digitsOf {n : Nat} (h : (digitsOf n).head? = some '0') : n = 0 := by
  rw [digitsOf] at h
  induction n using Nat.strongRecOn with
  | ind n ih =>
    by_contra hne
    rw [Nat.toDigits_eq_if (by decide)] at h
    split at h
    · next hlt =>
      interval_cases n <;> simp_all [Nat.digitChar]
    · next hle =>
      have hlt : n / 10 < n := Nat.div_lt_self (Nat.pos_of_ne_zero hne) (by decide)
      rw [List.head?_append_of_ne_nil _ Nat.toDigits_ne_nil] at h
      have := ih _ hlt h
      omega

/-- There are no needless zeros in front of the point. -/
theorem whole_fixedLiteral {places n : Nat} (h : (fixedLiteral places n).whole.head? = some '0') :
    (fixedLiteral places n).whole = ['0'] := by
  have hlength := length_paddedDigits (places + 1) n
  rw [fixedLiteral] at h ⊢
  by_cases hshort : places + 1 ≤ (digitsOf n).length
  · have hpadded : paddedDigits (places + 1) n = digitsOf n := by
      rw [paddedDigits, Nat.sub_eq_zero_of_le hshort, List.replicate_zero, List.nil_append]
    have hpos : (digitsOf n).length - places ≠ 0 := by omega
    rw [hpadded, List.head?_take, if_neg hpos] at h
    obtain rfl := eq_of_head?_digitsOf h
    have hone : (digitsOf 0).length = 1 := rfl
    obtain rfl : places = 0 := by omega
    rw [hpadded]
    rfl
  · -- with digits filled up, exactly one zero stands in front of the point
    obtain ⟨k, hk⟩ := Nat.exists_eq_succ_of_ne_zero
      (Nat.sub_ne_zero_of_lt (Nat.lt_of_not_le hshort))
    have hwhole : (paddedDigits (places + 1) n).length - places = 1 := by omega
    rw [hwhole, paddedDigits, hk, List.replicate_succ]
    rfl

/-- A magnitude with a given count of places is a literal. -/
theorem fixedMagnitude_eq (places : Nat) (q : ℚ) :
    fixedMagnitude places q =
      String.ofList (fixedLiteral places (nearest .even (q * 10 ^ places))).spelling := by
  generalize hn : nearest .even (q * 10 ^ places) = n
  have hlength := length_fraction_fixedLiteral places n
  simp only [fixedMagnitude, Literal.spelling, hn]
  by_cases hplaces : places = 0
  · rw [if_pos hplaces, if_pos (List.eq_nil_of_length_eq_zero (hlength.trans hplaces))]
    rfl
  · rw [if_neg hplaces, if_neg fun hnil => hplaces (by rw [← hlength, hnil, List.length_nil])]
    rfl

/-- **The fixed-point text of a number is its sign and a literal.** -/
theorem fixed_finite (places : Nat) (negative : Bool) (q : ℚ) :
    fixed places (.finite negative q) = Numeral.sign negative ++
      String.ofList (fixedLiteral places (nearest .even (q * 10 ^ places))).spelling := by
  rw [fixed, fixedMagnitude_eq]

/-! ## Needless zeros -/

end Decimal

namespace Literal

/-- A literal without the zeros that end its fraction. -/
def trimmed (l : Literal) : Literal :=
  ⟨l.whole, l.fraction.rdropWhile (· == '0')⟩

variable {l : Literal}

/-- What is trimmed are zeros. -/
theorem exists_trimmed (l : Literal) :
    ∃ k, l.fraction = l.trimmed.fraction ++ List.replicate k '0' := by
  refine ⟨(l.fraction.rtakeWhile (· == '0')).length, ?_⟩
  have hzeros : l.fraction.rtakeWhile (· == '0') =
      List.replicate (l.fraction.rtakeWhile (· == '0')).length '0' :=
    List.eq_replicate_iff.2 ⟨rfl, fun c hc => by simpa using List.mem_rtakeWhile_imp hc⟩
  rw [trimmed, ← hzeros, List.rdropWhile_append_rtakeWhile]

theorem isNumeral_trimmed (h : l.IsNumeral) : l.trimmed.IsNumeral where
  ne_nil := h.ne_nil
  whole := h.whole
  fraction c hc := h.fraction c ((List.rdropWhile_prefix _ _).subset hc)

theorem length_trimmed_le (l : Literal) : l.trimmed.fraction.length ≤ l.fraction.length :=
  (List.rdropWhile_prefix _ _).length_le

/-- A trimmed fraction does not end in a zero. -/
theorem getLast?_trimmed (l : Literal) : ∀ c ∈ l.trimmed.fraction.getLast?, c ≠ '0' := by
  intro c hc
  obtain ⟨hne, hlast⟩ := List.mem_getLast?_eq_getLast hc
  have hnot := List.rdropWhile_last_not (· == '0') l.fraction hne
  rw [hlast]
  exact fun h => hnot (beq_iff_eq.2 h)

/-- Trimming keeps the value. -/
theorem rational_trimmed (l : Literal) : l.trimmed.rational = l.rational := by
  obtain ⟨k, hk⟩ := l.exists_trimmed
  have hwhole : l.trimmed.whole = l.whole := rfl
  rw [rational, rational, hk, hwhole, ← List.append_assoc, natural_append_zeros, List.length_append,
    List.length_replicate]
  push_cast
  rw [neg_add, zpow_add₀ (by norm_num), zpow_neg, zpow_neg, zpow_natCast, zpow_natCast]
  field_simp

end Literal

namespace Decimal

theorem trimFraction_of_point {before fraction : List Char} (h : '.' ∉ fraction) :
    trimFraction (before ++ '.' :: fraction) =
      if fraction.rdropWhile (· == '0') = [] then before
      else before ++ '.' :: fraction.rdropWhile (· == '0') := by
  have hpoint : (before ++ '.' :: fraction).contains '.' = true := by simp
  have hdrop : (before ++ '.' :: fraction).reverse.dropWhile (· == '0') =
      (fraction.rdropWhile (· == '0')).reverse ++ '.' :: before.reverse := by
    have hreverse : (before ++ '.' :: fraction).reverse =
        fraction.reverse ++ '.' :: before.reverse := by simp
    rw [hreverse, List.dropWhile_append, List.rdropWhile, List.reverse_reverse]
    split
    · next hnil =>
      rw [List.isEmpty_iff.1 hnil]
      rfl
    · rfl
  rw [trimFraction, if_pos hpoint, hdrop]
  generalize hkept : fraction.rdropWhile (· == '0') = kept
  cases kept using List.reverseRecOn with
  | nil => simp
  | append_singleton kept c =>
      have hc : c ≠ '.' := by
        rintro rfl
        refine h ((List.rdropWhile_prefix (· == '0') fraction).subset ?_)
        simp [hkept]
      simp [hc]

/-- **Trimming drops the zeros that end a fraction, and a point that nothing follows, and nothing
else.** -/
theorem trimFraction_spelling {front : List Char} (hfront : '.' ∉ front) {l : Literal}
    (hl : l.IsNumeral) :
    trimFraction (front ++ l.spelling) = front ++ l.trimmed.spelling := by
  have hdigit {cs : List Char} (h : ∀ c ∈ cs, c.isDigit = true) : '.' ∉ cs :=
    fun hmem => absurd (h _ hmem) (by decide)
  rw [Literal.spelling, Literal.spelling]
  split
  · next hnil =>
    have hpoint : ¬(front ++ l.whole).contains '.' = true := by
      simp [hfront, hdigit hl.whole]
    rw [trimFraction, if_neg hpoint, if_pos (by rw [Literal.trimmed, hnil]; rfl)]
    rfl
  · rw [← List.append_assoc, trimFraction_of_point (hdigit hl.fraction)]
    split
    · next hnil => rw [Literal.trimmed, if_pos hnil]
    · next hne => rw [Literal.trimmed, if_neg hne, List.append_assoc]

/-! ## Shown numbers -/

/-- The value of a literal with a sign in front. -/
def signedValue (negative : Bool) (l : Literal) : ℚ :=
  if negative then -l.rational else l.rational

/-- A plain decimal without needless zeros and signs: not more than the given places, no zero at the
end of its fraction, no zero in front of another digit, no minus sign in front of zero.  A literal
without a fraction has no point. -/
structure IsShown (places : Nat) (negative : Bool) (l : Literal) : Prop where
  numeral : l.IsNumeral
  length_fraction : l.fraction.length ≤ places
  last : ∀ c ∈ l.fraction.getLast?, c ≠ '0'
  first : l.whole.head? = some '0' → l.whole = ['0']
  sign : negative = true → l.rational ≠ 0

/-- The exponent of the unit that numbers with some count of decimals are rounded up to. -/
def unitExponent (places : Nat) : ℤ :=
  places.toInt32.toInt

theorem unitExponent_of_lt {places : Nat} (h : places < 2 ^ 31) :
    unitExponent places = places := by
  obtain ⟨-, heq⟩ | ⟨hlarge, -⟩ := Scalar.toInt_toInt32_cases places
  · exact heq
  · exact absurd h hlarge.not_gt

theorem unitExponent_lt {places : Nat} (h : 2 ^ 31 ≤ places) : unitExponent places < places := by
  obtain ⟨hsmall, -⟩ | ⟨-, hlt⟩ := Scalar.toInt_toInt32_cases places
  · exact absurd hsmall h.not_gt
  · exact hlt

/-- A unit is a whole number of the last places that are written. -/
theorem exists_unit_eq (places : Nat) :
    ∃ k : Nat, (10 : ℚ) ^ (-unitExponent places) = 10 ^ k * 10 ^ (-(places : ℤ)) := by
  have hle : unitExponent places ≤ places := by
    obtain h | h := lt_or_ge places (2 ^ 31)
    · exact (unitExponent_of_lt h).le
    · exact (unitExponent_lt h).le
  obtain ⟨k, hk⟩ := Int.eq_ofNat_of_zero_le (sub_nonneg.2 hle)
  refine ⟨k, ?_⟩
  rw [← zpow_natCast, ← zpow_add₀ (by norm_num)]
  congr 1
  omega

/-- The number that is written down is a whole number of units, and has the sign of its value. -/
theorem exists_ceiling (places : Nat) (x : Signed) :
    ∃ n : ℤ, ceiling places x = String.ofList (trimFraction (fixed places (.finite (decide (n < 0))
        (n.natAbs * 10 ^ (-unitExponent places)))).toList) ∧
      x.val * 10 ^ unitExponent places -
        4 * 2 ^ (-52 : ℤ) * |x.val * 10 ^ unitExponent places| ≤ n ∧
      (n : ℚ) < x.val * 10 ^ unitExponent places + 1 := by
  have hpos : (0 : ℚ) < 10 ^ (-unitExponent places) := by positivity
  have hunit : (Scalar.zpower 10.0 places.toInt32 : Exact ℚ).val = 10 ^ unitExponent places := by
    rw [Exact.val_zpower, Exact.val_ofScientific, unitExponent]
    norm_num
  obtain ⟨n, hn, hbelow, habove⟩ := units_bounds (x.exact * Scalar.zpower 10.0 places.toInt32)
  rw [Exact.val_mul, hunit] at hbelow habove
  refine ⟨n, ?_, hbelow, habove⟩
  have hscaled : (units (x * Scalar.zpower 10.0 places.toInt32) /
      Scalar.zpower 10.0 places.toInt32).val = n * 10 ^ (-unitExponent places) := by
    rw [Signed.val, Signed.exact_div, Exact.val_div, exact_units, Signed.exact_mul,
      Signed.exact_zpower, Signed.exact_ofScientific, hn, hunit, div_eq_mul_inv, zpow_neg]
  have hsign : decide ((n : ℚ) * 10 ^ (-unitExponent places) < 0) = decide (n < 0) := by
    rw [decide_eq_decide, ← not_le, mul_nonneg_iff_of_pos_right hpos, not_le, Int.cast_lt_zero]
  have hmagnitude : |(n : ℚ) * 10 ^ (-unitExponent places)| =
      n.natAbs * 10 ^ (-unitExponent places) := by
    rw [abs_mul, abs_of_pos hpos, Nat.cast_natAbs, Int.cast_abs]
  have hnumeral := Signed.numeral_add_zero
    (units (x * Scalar.zpower 10.0 places.toInt32) / Scalar.zpower 10.0 places.toInt32)
  rw [hscaled, hsign, hmagnitude] at hnumeral
  rw [← hnumeral]
  rfl

/-- A whole number of units is shown as a trimmed literal. -/
theorem trimFraction_fixed (places n : Nat) (negative : Bool) :
    String.ofList (trimFraction
        (fixed places (.finite negative (n * 10 ^ (-(places : ℤ))))).toList) =
      Numeral.sign negative ++ String.ofList (fixedLiteral places n).trimmed.spelling := by
  have hscaled : (n : ℚ) * 10 ^ (-(places : ℤ)) * 10 ^ places = n := by
    rw [zpow_neg, zpow_natCast, mul_assoc, inv_mul_cancel₀ (by positivity), mul_one]
  have hsign : '.' ∉ (Numeral.sign negative).toList := by
    cases negative <;> decide
  rw [fixed_finite, hscaled, Binary64.nearest_natCast, String.toList_append, String.toList_ofList,
    trimFraction_spelling hsign (isNumeral_fixedLiteral places n), String.ofList_append,
    String.ofList_toList]

theorem rational_trimmed_fixedLiteral (places n : Nat) :
    (fixedLiteral places n).trimmed.rational = n * 10 ^ (-(places : ℤ)) := by
  rw [Literal.rational_trimmed, rational_fixedLiteral]

/-- A trimmed literal with the sign of its value is a plain decimal. -/
theorem isShown_fixedLiteral (places : Nat) (n : ℤ) :
    IsShown places (decide (n < 0)) (fixedLiteral places n.natAbs).trimmed where
  numeral := Literal.isNumeral_trimmed (isNumeral_fixedLiteral _ _)
  length_fraction := (Literal.length_trimmed_le _).trans (length_fraction_fixedLiteral _ _).le
  last := Literal.getLast?_trimmed _
  first := whole_fixedLiteral
  sign h := by
    have hne : n.natAbs ≠ 0 := Int.natAbs_ne_zero.2 (of_decide_eq_true h).ne
    rw [rational_trimmed_fixedLiteral]
    exact mul_ne_zero (Nat.cast_ne_zero.2 hne) (by positivity)

theorem signedValue_fixedLiteral (places : Nat) (n : ℤ) :
    signedValue (decide (n < 0)) (fixedLiteral places n.natAbs).trimmed =
      n * 10 ^ (-(places : ℤ)) := by
  rw [signedValue, rational_trimmed_fixedLiteral, Nat.cast_natAbs, Int.cast_abs]
  split
  · next h => rw [abs_of_neg (Int.cast_lt_zero.2 (of_decide_eq_true h)), neg_mul, neg_neg]
  · next h => rw [abs_of_nonneg (Int.cast_nonneg (not_lt.1 fun hlt => h (decide_eq_true hlt)))]

/-- A text is what a number is shown as if it is rounded up to a multiple of `10 ^ (-exponent)`: a
plain decimal without needless zeros and signs, whose value is less than a unit above the number,
and not below it by more than a few units in the last place. -/
def ShowsCeiling (places : Nat) (exponent : ℤ) (x : ℚ) (text : String) : Prop :=
  ∃ (negative : Bool) (l : Literal),
    text = Numeral.sign negative ++ String.ofList l.spelling ∧
    IsShown places negative l ∧
    (∃ n : ℤ, signedValue negative l = n * 10 ^ (-exponent)) ∧
    x - 4 * 2 ^ (-52 : ℤ) * |x| ≤ signedValue negative l ∧
    signedValue negative l < x + 10 ^ (-exponent)

/-- Whole units are written with all the places that are asked for, though the unit may be greater
than the last of them. -/
theorem exists_isShown_units (places : Nat) (n : ℤ) :
    ∃ (negative : Bool) (l : Literal),
      String.ofList (trimFraction (fixed places (.finite (decide (n < 0))
        (n.natAbs * 10 ^ (-unitExponent places)))).toList) =
          Numeral.sign negative ++ String.ofList l.spelling ∧
      IsShown places negative l ∧
      signedValue negative l = n * 10 ^ (-unitExponent places) := by
  obtain ⟨k, hk⟩ := exists_unit_eq places
  have hdigits : (n.natAbs : ℚ) * 10 ^ (-unitExponent places) =
      ((n * 10 ^ k : ℤ).natAbs : ℚ) * 10 ^ (-(places : ℤ)) := by
    rw [hk, Int.natAbs_mul, Int.natAbs_pow]
    push_cast
    ring
  have hsign : decide (n < 0) = decide (n * 10 ^ k < 0) := by
    rw [decide_eq_decide, ← not_le, ← not_le, mul_nonneg_iff_of_pos_right (by positivity)]
  rw [hdigits, hsign, trimFraction_fixed]
  refine ⟨_, _, rfl, isShown_fixedLiteral places _, ?_⟩
  rw [signedValue_fixedLiteral, hk]
  push_cast
  ring

/-- **What is shown of a number is rounded up**, to a multiple of the unit. -/
theorem showsCeiling_ceiling (places : Nat) (x : Signed) :
    ShowsCeiling places (unitExponent places) x.val (ceiling places x) := by
  obtain ⟨n, htext, hbelow, habove⟩ := exists_ceiling places x
  obtain ⟨negative, l, hspelling, hshown, hvalue⟩ := exists_isShown_units places n
  set e := unitExponent places
  have hpos : (0 : ℚ) < 10 ^ (-e) := by positivity
  have hunit : (0 : ℚ) < 10 ^ e := by positivity
  have hone : (10 : ℚ) ^ e * 10 ^ (-e) = 1 := by
    rw [zpow_neg, mul_inv_cancel₀ hunit.ne']
  refine ⟨negative, l, htext.trans hspelling, hshown, ⟨n, hvalue⟩, ?_, ?_⟩
  · calc x.val - 4 * 2 ^ (-52 : ℤ) * |x.val|
        = (x.val * 10 ^ e - 4 * 2 ^ (-52 : ℤ) * |x.val * 10 ^ e|) * 10 ^ (-e) := by
          rw [abs_mul, abs_of_pos hunit]
          linear_combination (4 * 2 ^ (-52 : ℤ) * |x.val| - x.val) * hone
      _ ≤ n * 10 ^ (-e) := mul_le_mul_of_nonneg_right hbelow hpos.le
      _ = signedValue negative l := hvalue.symm
  · calc signedValue negative l
        = n * 10 ^ (-e) := hvalue
      _ < (x.val * 10 ^ e + 1) * 10 ^ (-e) := mul_lt_mul_of_pos_right habove hpos
      _ = x.val + 10 ^ (-e) := by linear_combination x.val * hone

/-- A text is not that of two values. -/
theorem signedValue_congr {places places' : Nat} {negative negative' : Bool} {l l' : Literal}
    (hl : IsShown places negative l) (hl' : IsShown places' negative' l')
    (h : Numeral.sign negative ++ String.ofList l.spelling =
      Numeral.sign negative' ++ String.ofList l'.spelling) :
    signedValue negative l = signedValue negative' l' := by
  have hminus {l : Literal} (hl : l.IsNumeral) (rest : List Char) : l.spelling ≠ '-' :: rest := by
    simpa using hl.spelling_append_ne [] rest
  obtain ⟨rfl, hspelling⟩ := sign_append_inj (hminus hl.numeral) (hminus hl'.numeral) h
  rw [Literal.spelling_inj hl.numeral hl'.numeral hspelling]

/-- A positive number is shown as a unit at least. -/
theorem unit_le_signedValue {places : Nat} {x : Signed} (hpos : 0 < x.val) {negative : Bool}
    {l : Literal} (hl : IsShown places negative l)
    (htext : ceiling places x = Numeral.sign negative ++ String.ofList l.spelling) :
    10 ^ (-unitExponent places) ≤ signedValue negative l := by
  obtain ⟨negative', l', htext', hl', ⟨n, hn⟩, hbelow, -⟩ := showsCeiling_ceiling places x
  have hunit : (0 : ℚ) < 10 ^ (-unitExponent places) := by positivity
  have hnoise : (4 : ℚ) * 2 ^ (-52 : ℤ) < 1 := by norm_num
  have hvalue : (0 : ℚ) < n * 10 ^ (-unitExponent places) := by
    rw [hn, abs_of_pos hpos] at hbelow
    nlinarith only [hbelow, hnoise, hpos]
  have hone : 0 < n := by exact_mod_cast (mul_pos_iff_of_pos_right hunit).1 hvalue
  rw [signedValue_congr hl hl' (htext.symm.trans htext'), hn]
  exact le_mul_of_one_le_left hunit.le (by exact_mod_cast hone)

/-- A unit is too much if the decimals asked for are finer. -/
theorem not_showsCeiling {places : Nat} {x : Signed} (hpos : 0 < x.val)
    (hfar : x.val + 10 ^ (-(places : ℤ)) ≤ 10 ^ (-unitExponent places)) :
    ¬ShowsCeiling places places x.val (ceiling places x) := by
  rintro ⟨negative, l, htext, hl, -, -, habove⟩
  exact absurd habove (not_lt.2 (hfar.trans (unit_le_signedValue hpos hl htext)))

/-- With more decimals than the exponent can count, half a unit is shown as a unit. -/
theorem exists_not_showsCeiling {places : Nat} (h : 2 ^ 31 ≤ places) :
    ∃ x : Signed, ¬ShowsCeiling places places x.val (ceiling places x) := by
  have hunit : (0 : ℚ) < 10 ^ (-unitExponent places) := by positivity
  have hfiner : (10 : ℚ) ^ (-(places : ℤ)) ≤ 10 ^ (-unitExponent places) / 10 := by
    have hlt := unitExponent_lt h
    rw [div_eq_mul_inv, ← zpow_sub_one₀ (by norm_num)]
    exact zpow_le_zpow_right₀ (by norm_num) (by omega)
  let x := Signed.of ⟨10 ^ (-unitExponent places) / 2⟩ false
  have hval : x.val = 10 ^ (-unitExponent places) / 2 := rfl
  exact ⟨x, not_showsCeiling (by linarith) (by linarith)⟩

/-- All of these numbers are finite. -/
theorem ceiling?_signed (limit places : Nat) (x : Signed) :
    ceiling? limit places x = if limit < places then none else some (ceiling places x) := by
  simp [ceiling?, Scalar.isFinite]

/-- **A number is shown rounded up exactly with fewer than `2 ^ 31` decimals**, and not more than
can be written.  With more decimals it is rounded up to a multiple of another unit. -/
theorem ceiling_shown_iff (limit places : Nat) :
    (∀ x : Signed, ShowsCeiling places (unitExponent places) x.val (ceiling places x)) ∧
      ((∀ x : Signed, ∃ text, ceiling? limit places x = some text ∧
          ShowsCeiling places places x.val text) ↔
        places ≤ limit ∧ places < 2 ^ 31) := by
  refine ⟨showsCeiling_ceiling places, fun h => ?_, fun ⟨hlimit, hsmall⟩ x => ?_⟩
  · have hlimit : places ≤ limit := by
      obtain ⟨text, htext, -⟩ := h (.of ⟨0⟩ false)
      by_contra! hlt
      simp [ceiling?_signed, hlt] at htext
    refine ⟨hlimit, ?_⟩
    by_contra! hlarge
    obtain ⟨x, hx⟩ := exists_not_showsCeiling hlarge
    obtain ⟨text, htext, hshows⟩ := h x
    rw [ceiling?_signed, if_neg hlimit.not_gt, Option.some.injEq] at htext
    exact hx (htext ▸ hshows)
  · refine ⟨ceiling places x, (ceiling?_signed _ _ _).trans (if_neg hlimit.not_gt), ?_⟩
    have hshows := showsCeiling_ceiling places x
    rwa [unitExponent_of_lt hsmall] at hshows

/-- The exponent of 4294967295 decimals is -1, so that 1.5 is rounded up to tens. -/
theorem exists_ceiling_not_shown :
    ∃ x : Signed, x.val = 3 / 2 ∧
      ceiling? 4294967295 4294967295 x = some (ceiling 4294967295 x) ∧
      (∀ negative l, IsShown 4294967295 negative l →
        ceiling 4294967295 x = Numeral.sign negative ++ String.ofList l.spelling →
          10 ≤ signedValue negative l) ∧
      ¬ShowsCeiling 4294967295 (4294967295 : Nat) x.val (ceiling 4294967295 x) := by
  have hunit : (10 : ℚ) ^ (-unitExponent 4294967295) = 10 := by
    have hexponent : unitExponent 4294967295 = -1 := by decide +kernel
    rw [hexponent, neg_neg, zpow_one]
  have hfine : (10 : ℚ) ^ (-((4294967295 : Nat) : ℤ)) ≤ 1 :=
    zpow_le_one_of_nonpos₀ (by norm_num) (by omega)
  have hpos : 0 < (Signed.of ⟨3 / 2⟩ false).val := by decide +kernel
  refine ⟨.of ⟨3 / 2⟩ false, rfl, rfl, fun negative l hl htext => ?_, not_showsCeiling hpos ?_⟩
  · rw [← hunit]
    exact unit_le_signedValue hpos hl htext
  · have hval : (Signed.of ⟨3 / 2⟩ false).val = 3 / 2 := rfl
    rw [hunit, hval]
    exact (add_le_add_right hfine _).trans (by norm_num)

/-- What is a negative zero once it is rounded has no sign. -/
example : ceiling 5 (Signed.of ⟨-1 / 1000000⟩ false) = "0" := by
  decide +kernel

end Decimal

end GrowthOrder
