import GrowthOrder.Decimal.Shortest
import GrowthOrder.Proofs.Binary64.Equality
import GrowthOrder.Token

/-!
# GrowthOrder.Proofs.Decimal.Shortest

Numbers that are written down read back.  The shortest decimal of a finite number has a value that
is nearest to the absolute value of the number (`ofRational_shortest`), and the plain layout of a
decimal is an unsigned literal of the same value (`layout_plain`, `rational_literal`).
-/

namespace GrowthOrder

open Binary64 (ofRational ofScientific_eq ofRational_magnitude)

namespace Decimal

/-! ## Values of decimals -/

/-- The exact value of a decimal. -/
def value (d : Decimal) : ℚ :=
  d.digits * 10 ^ d.exponent

/-- A decimal is read by value. -/
theorem read_eq (d : Decimal) : d.read = ofRational d.value := by
  have hexponent : (if decide (d.exponent < 0) = true then -(d.exponent.natAbs : Int)
      else (d.exponent.natAbs : Int)) = d.exponent := by
    split
    · next h =>
      have hneg := of_decide_eq_true h
      omega
    · next h =>
      have hnonneg := of_decide_eq_false (Bool.not_eq_true _ ▸ h)
      omega
  rw [read, ofScientific_eq, hexponent, value]

/-- All digits of a number stand for its exact magnitude. -/
theorem value_exact (x : Float) : (exact x).value = Binary64.magnitude x := by
  unfold exact
  simp only [Nat.pow_eq]
  split
  · next h =>
    have hpow : (2 : ℚ) ^ Binary64.exponent x = 2 ^ (Binary64.exponent x).toNat := by
      conv_lhs => rw [← Int.toNat_of_nonneg h, zpow_natCast]
    rw [value, Binary64.magnitude, hpow]
    push_cast
    rw [mul_one]
  · next h =>
    have hpow (b : ℚ) : b ^ Binary64.exponent x = (b ^ (Binary64.exponent x).natAbs)⁻¹ := by
      rw [← zpow_natCast, ← zpow_neg]
      congr 1
      omega
    rw [value, Binary64.magnitude, hpow, hpow, show (10 : ℚ) = 5 * 2 by norm_num, mul_pow]
    push_cast
    field_simp

/-- What is found on a grid reads back. -/
theorem read_of_onGrid? {tie : Tie} {x : Float} {q : ℚ} {e : Int} {d : Decimal}
    (h : onGrid? tie x q e = some d) : (d.read == x) = true := by
  unfold onGrid? at h
  exact List.find?_some (p := fun d : Decimal => d.read == x) h

/-- **The shortest decimal of a finite number reads back to its absolute value.** -/
theorem ofRational_shortest (tie : Tie) {x : Float} (h : x.isFinite = true) :
    ofRational (shortest tie x).value = x.abs := by
  rw [← ofRational_magnitude h]
  unfold shortest
  dsimp only
  split
  · next hzero =>
    rw [hzero, value]
    simp
  · next hzero =>
    cases hfound : (List.range 17).findSome? fun n : Nat => onGrid? tie x.abs
        (Binary64.magnitude x) (leadingExponent (Binary64.magnitude x) - n) with
    | none => rw [Option.getD_none, value_exact]
    | some d =>
        obtain ⟨n, -, hn⟩ := List.exists_of_findSome?_eq_some hfound
        have hread := read_of_onGrid? hn
        rw [Option.getD_some, ← read_eq, ofRational_magnitude h]
        obtain heq | ⟨-, s, hs⟩ := ((Binary64.beq_iff _ _).1 hread).1
        · exact heq
        · exact absurd (Binary64.magnitude_of_abs hs) hzero

end Decimal

/-! ## Literals -/

namespace Literal

/-- A literal that can be written: digits before the point, and nothing but digits behind it. -/
structure IsNumeral (l : Literal) : Prop where
  ne_nil : l.whole ≠ []
  whole : ∀ c ∈ l.whole, c.isDigit = true
  fraction : ∀ c ∈ l.fraction, c.isDigit = true

instance (l : Literal) : Decidable l.IsNumeral :=
  decidable_of_iff
    (l.whole ≠ [] ∧ l.whole.all Char.isDigit = true ∧ l.fraction.all Char.isDigit = true)
    ⟨fun ⟨hne, hwhole, hfraction⟩ =>
        ⟨hne, List.all_eq_true.1 hwhole, List.all_eq_true.1 hfraction⟩,
      fun h => ⟨h.ne_nil, List.all_eq_true.2 h.whole, List.all_eq_true.2 h.fraction⟩⟩

theorem spelling_eq (l : Literal) :
    l.spelling = l.whole ++ if l.fraction = [] then [] else '.' :: l.fraction := by
  rw [spelling]
  split
  · rw [List.append_nil]
  · rfl

/-- The point is where the first digits end. -/
theorem takeWhile_spelling {l : Literal} (h : l.IsNumeral) :
    l.spelling.takeWhile Char.isDigit = l.whole := by
  rw [spelling_eq, List.takeWhile_append_of_pos h.whole]
  split <;> simp

/-- A numeral is written in its own way. -/
theorem spelling_inj {l l' : Literal} (h : l.IsNumeral) (h' : l'.IsNumeral)
    (heq : l.spelling = l'.spelling) : l = l' := by
  obtain ⟨whole, fraction⟩ := l
  obtain ⟨whole', fraction'⟩ := l'
  obtain rfl : whole = whole' :=
    (takeWhile_spelling h).symm.trans ((congrArg _ heq).trans (takeWhile_spelling h'))
  rw [spelling_eq, spelling_eq, List.append_cancel_left_eq] at heq
  split_ifs at heq <;> simp_all

/-- A numeral has no sign of its own. -/
theorem IsNumeral.spelling_append_ne {l : Literal} (h : l.IsNumeral) (rest cs : List Char) :
    l.spelling ++ rest ≠ '-' :: cs := by
  obtain ⟨c, whole, hwhole⟩ := List.exists_cons_of_ne_nil h.ne_nil
  have hc := h.whole c (by simp [hwhole])
  rw [spelling_eq, hwhole]
  rintro ⟨⟩
  exact absurd hc (by decide)

theorem natural_eq_ofDigitChars (ds : List Char) : natural ds = Nat.ofDigitChars 10 ds 0 := by
  rw [natural, Nat.ofDigitChars_eq_foldl]

/-- The exact value of a literal. -/
def rational (l : Literal) : ℚ :=
  natural (l.whole ++ l.fraction) * 10 ^ (-(l.fraction.length : Int))

/-- A literal is read by value. -/
theorem value_eq (l : Literal) : l.value = ofRational l.rational := by
  rw [value, ofScientific_eq, if_pos rfl, rational]

/-- Zeros at the end of some digits multiply by powers of ten. -/
theorem natural_append_zeros (ds : List Char) (k : Nat) :
    natural (ds ++ List.replicate k '0') = natural ds * 10 ^ k := by
  rw [natural_eq_ofDigitChars, natural_eq_ofDigitChars, Nat.ofDigitChars_append,
    Nat.ofDigitChars_replicate_zero, Nat.mul_comm]

/-- Zeros in front of some digits do not count. -/
theorem natural_zeros_append (k : Nat) (ds : List Char) :
    natural (List.replicate k '0' ++ ds) = natural ds := by
  rw [natural_eq_ofDigitChars, natural_eq_ofDigitChars, Nat.ofDigitChars_append,
    Nat.ofDigitChars_replicate_zero, Nat.mul_zero]

theorem natural_digitsOf (n : Nat) : natural (Decimal.digitsOf n) = n := by
  rw [natural_eq_ofDigitChars, Decimal.digitsOf, Nat.ofDigitChars_ten_toDigits]

end Literal

namespace Decimal

/-! ## The plain layout -/

theorem isDigit_of_mem_digitsOf {n : Nat} {c : Char} (h : c ∈ digitsOf n) : c.isDigit = true :=
  Nat.isDigit_of_mem_toDigits (by decide) (by decide) h

/-- Only zeros are dropped from the end of some digits. -/
theorem significant_append {ds : List Char} (h : ds ≠ []) :
    ∃ k, ds = significant ds ++ List.replicate k '0' := by
  have hsplit : ds = (ds.reverse.dropWhile (· == '0')).reverse
      ++ (ds.reverse.takeWhile (· == '0')).reverse := by
    rw [← List.reverse_append, List.takeWhile_append_dropWhile, List.reverse_reverse]
  have hzeros : (ds.reverse.takeWhile (· == '0')).reverse =
      List.replicate (ds.reverse.takeWhile (· == '0')).length '0' := by
    rw [List.eq_replicate_iff]
    refine ⟨List.length_reverse, fun c hc => ?_⟩
    have hall := (List.all_takeWhile : ((ds.reverse.takeWhile (· == '0')).all (· == '0')) = true)
    simpa using List.all_eq_true.1 hall c (List.mem_reverse.1 hc)
  rw [hzeros] at hsplit
  rw [significant]
  split
  · next hnil =>
    rw [hnil, List.nil_append] at hsplit
    cases hlength : (ds.reverse.takeWhile (· == '0')).length with
    | zero => exact absurd (hsplit.trans (by rw [hlength]; rfl)) h
    | succ k => exact ⟨k, hsplit.trans (by rw [hlength]; rfl)⟩
  · next c cs hcons =>
    rw [hcons] at hsplit
    exact ⟨_, hsplit⟩

theorem significant_ne_nil (ds : List Char) : significant ds ≠ [] := by
  unfold significant
  split <;> exact List.cons_ne_nil _ _

/-- The literal that a decimal is written as without an exponent. -/
def literal (d : Decimal) : Literal :=
  let all := digitsOf d.digits
  let point : Int := all.length + d.exponent
  let ds := significant all
  if point ≤ 0 then ⟨['0'], List.replicate point.natAbs '0' ++ ds⟩
  else if point.toNat < ds.length then ⟨ds.take point.toNat, ds.drop point.toNat⟩
  else ⟨ds ++ List.replicate (point.toNat - ds.length) '0', []⟩

/-- **The plain layout is an unsigned literal.** -/
theorem layout_plain (d : Decimal) : layout plain d = d.literal.spelling := by
  have hds := significant_ne_nil (digitsOf d.digits)
  simp only [layout, NumberStyle.isPositional, plain, if_true, positionalText, literal]
  split
  · rw [Literal.spelling, if_neg (by simp [hds])]
    rfl
  · split
    · next h =>
      have hdrop : (significant (digitsOf d.digits)).drop
          ((digitsOf d.digits).length + d.exponent).toNat ≠ [] := by
        rw [Ne, List.drop_eq_nil_iff]
        omega
      rw [Literal.spelling, if_neg hdrop]
    · rw [Literal.spelling, if_pos rfl]
      simp

/-- The digits of a number without its trailing zeros, and how many zeros these are. -/
theorem digitsOf_eq (n : Nat) :
    ∃ k, digitsOf n = significant (digitsOf n) ++ List.replicate k '0' :=
  significant_append Nat.toDigits_ne_nil

theorem isDigit_of_mem_significant {n : Nat} {c : Char} (h : c ∈ significant (digitsOf n)) :
    c.isDigit = true := by
  obtain ⟨k, hk⟩ := digitsOf_eq n
  refine isDigit_of_mem_digitsOf (n := n) ?_
  rw [hk]
  exact List.mem_append_left _ h

theorem isNumeral_literal (d : Decimal) : d.literal.IsNumeral := by
  have hdigit : ∀ c ∈ significant (digitsOf d.digits), c.isDigit = true :=
    fun c => isDigit_of_mem_significant
  have hzeros (k : Nat) : ∀ c ∈ List.replicate k '0', c.isDigit = true := by
    intro c hc
    rw [List.eq_of_mem_replicate hc]
    decide
  have hne := significant_ne_nil (digitsOf d.digits)
  unfold literal
  dsimp only
  split
  · refine ⟨by simp, by simp, ?_⟩
    exact List.forall_mem_append.2 ⟨hzeros _, hdigit⟩
  · next hpoint =>
    split
    · refine ⟨?_, fun c hc => hdigit c (List.mem_of_mem_take hc),
        fun c hc => hdigit c (List.mem_of_mem_drop hc)⟩
      rw [Ne, List.take_eq_nil_iff]
      intro h
      obtain h | h := h
      · omega
      · exact hne h
    · refine ⟨by simp [hne], ?_, by simp⟩
      exact List.forall_mem_append.2 ⟨hdigit, hzeros _⟩

/-- Moving the point of a decimal leaves the digits and a power of ten. -/
theorem value_eq_significant (d : Decimal) :
    d.value = Literal.natural (significant (digitsOf d.digits)) *
      10 ^ ((digitsOf d.digits).length + d.exponent
        - (significant (digitsOf d.digits)).length : Int) := by
  obtain ⟨k, hk⟩ := digitsOf_eq d.digits
  have hlength : (digitsOf d.digits).length = (significant (digitsOf d.digits)).length + k := by
    conv_lhs => rw [hk, List.length_append, List.length_replicate]
  have hnatural : d.digits = Literal.natural (significant (digitsOf d.digits)) * 10 ^ k := by
    rw [← Literal.natural_append_zeros, ← hk, Literal.natural_digitsOf]
  have hexponent : ((digitsOf d.digits).length + d.exponent
      - (significant (digitsOf d.digits)).length : Int) = k + d.exponent := by omega
  rw [value, hexponent, zpow_add₀ (by norm_num), zpow_natCast, ← mul_assoc]
  congr 1
  exact_mod_cast hnatural

/-- **The value of that literal is the value of the decimal.** -/
theorem rational_literal (d : Decimal) : d.literal.rational = d.value := by
  rw [value_eq_significant]
  unfold literal
  dsimp only
  generalize significant (digitsOf d.digits) = ds
  generalize ((digitsOf d.digits).length + d.exponent : Int) = point
  split
  · next h =>
    have hzero : ['0'] ++ (List.replicate point.natAbs '0' ++ ds) =
        List.replicate (point.natAbs + 1) '0' ++ ds := by
      rw [List.replicate_succ]
      rfl
    rw [Literal.rational, hzero, Literal.natural_zeros_append]
    congr 2
    rw [List.length_append, List.length_replicate]
    omega
  · split
    · next h =>
      rw [Literal.rational, List.take_append_drop]
      congr 2
      rw [List.length_drop]
      omega
    · next h =>
      rw [Literal.rational, List.append_nil, Literal.natural_append_zeros, List.length_nil]
      push_cast
      rw [mul_one, ← zpow_natCast]
      congr 2
      omega

/-! ## Numbers that are written and read back -/

/-- A sign can be told from what is behind it. -/
theorem sign_append_inj {negative negative' : Bool} {cs cs' : List Char}
    (hcs : ∀ rest, cs ≠ '-' :: rest) (hcs' : ∀ rest, cs' ≠ '-' :: rest)
    (h : Numeral.sign negative ++ String.ofList cs = Numeral.sign negative' ++ String.ofList cs') :
    negative = negative' ∧ cs = cs' := by
  simp only [String.ext_iff, String.toList_append, String.toList_ofList] at h
  cases negative <;> cases negative' <;> simp only [Numeral.sign] at h
  · exact ⟨rfl, by simpa using h⟩
  · exact absurd h (by simpa using hcs _)
  · exact absurd h.symm (by simpa using hcs' _)
  · exact ⟨rfl, by simpa using h⟩

/-- The literal that the absolute value of a number is written as. -/
def absLiteral (x : Float) : Literal :=
  (shortest .up x).literal

/-- The text of a finite number is its sign and the layout of the shortest digits. -/
theorem text_of_isFinite (style : NumberStyle) {x : Float} (h : x.isFinite = true) :
    text style x = Numeral.sign (Binary64.isNegative x) ++
      String.ofList (layout style (shortest style.tie x)) := by
  have hnan : x.isNaN = false := by
    rw [Binary64.isFinite_eq_parts] at h
    rw [Binary64.isNaN_eq_parts]
    cases hx : Binary64.parts x with
    | notANumber => rw [hx] at h; exact absurd h Bool.false_ne_true
    | _ => rfl
  rw [text, hnan, if_neg Bool.false_ne_true, if_pos h]

/-- The plain text of a finite number is its sign and the literal of its absolute value. -/
theorem text_plain {x : Float} (h : x.isFinite = true) :
    text plain x =
      Numeral.sign (Binary64.isNegative x) ++ String.ofList (absLiteral x).spelling := by
  rw [text_of_isFinite plain h, layout_plain]
  rfl

theorem isNumeral_absLiteral (x : Float) : (absLiteral x).IsNumeral :=
  isNumeral_literal _

/-- **The literal of a finite number is read as its absolute value.** -/
theorem value_absLiteral {x : Float} (h : x.isFinite = true) : (absLiteral x).value = x.abs := by
  rw [Literal.value_eq, absLiteral, rational_literal, ofRational_shortest .up h]

end Decimal

end GrowthOrder
