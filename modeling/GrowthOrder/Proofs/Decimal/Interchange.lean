import GrowthOrder.Proofs.Binary64.Order
import GrowthOrder.Proofs.Decimal.Shortest

/-!
# GrowthOrder.Proofs.Decimal.Interchange

Numbers in JSON.  The text of a finite number is its sign, a literal and perhaps an exponent, and no
other number has that text (`eq_of_text_interchange`); what is not finite is `null` throughout.
-/

namespace GrowthOrder

/-! ## Literals with an exponent -/

namespace Literal

/-- A literal that has a point in any case. -/
def pointed (l : Literal) : Literal :=
  if l.fraction = [] then ⟨l.whole, ['0']⟩ else l

/-- The point changes nothing about the value. -/
theorem rational_pointed (l : Literal) : l.pointed.rational = l.rational := by
  rw [pointed]
  split
  · next h =>
    have hzero := natural_append_zeros l.whole 1
    rw [List.replicate_one] at hzero
    rw [rational, rational, h, List.append_nil, hzero, List.length_singleton]
    norm_num
    ring
  · rfl

theorem IsNumeral.pointed {l : Literal} (h : l.IsNumeral) : l.pointed.IsNumeral := by
  rw [Literal.pointed]
  split
  · exact ⟨h.ne_nil, h.whole, by simp⟩
  · exact h

/-- Digits and a point are all that a literal is written with. -/
theorem IsNumeral.mem_spelling {l : Literal} (h : l.IsNumeral) {c : Char} (hc : c ∈ l.spelling) :
    c.isDigit = true ∨ c = '.' := by
  have hmem : c ∈ l.whole ∨ c = '.' ∨ c ∈ l.fraction := by
    rw [spelling_eq, List.mem_append] at hc
    split at hc <;> simp_all
  obtain hwhole | hpoint | hfraction := hmem
  · exact .inl (h.whole c hwhole)
  · exact .inr hpoint
  · exact .inl (h.fraction c hfraction)

end Literal

namespace Decimal

/-- An exponent as it is written behind a literal, with its sign. -/
def exponentSpelling : Option ℤ → List Char
  | none => []
  | some e => 'e' :: (if e < 0 then '-' else '+') :: digitsOf e.natAbs

theorem exponentSpelling_inj {e e' : Option ℤ} (h : exponentSpelling e = exponentSpelling e') :
    e = e' := by
  cases e with
  | none => cases e' with
    | none => rfl
    | some e' => simp [exponentSpelling] at h
  | some e => cases e' with
    | none => simp [exponentSpelling] at h
    | some e' =>
        simp only [exponentSpelling, List.cons.injEq, true_and] at h
        obtain ⟨hsign, hdigits⟩ := h
        have hnatural := congrArg Literal.natural hdigits
        rw [Literal.natural_digitsOf, Literal.natural_digitsOf] at hnatural
        rw [Option.some.injEq]
        split_ifs at hsign <;> first | omega | simp at hsign

/-- A literal with an exponent is written in its own way. -/
theorem spelling_exponent_inj {l l' : Literal} {e e' : Option ℤ} (hl : l.IsNumeral)
    (hl' : l'.IsNumeral)
    (h : l.spelling ++ exponentSpelling e = l'.spelling ++ exponentSpelling e') :
    l = l' ∧ e = e' := by
  -- the literal ends where the exponent starts
  have htake {l : Literal} (hl : l.IsNumeral) (e : Option ℤ) :
      (l.spelling ++ exponentSpelling e).takeWhile (· != 'e') = l.spelling := by
    have hpass : ∀ c ∈ l.spelling, (c != 'e') = true := by
      intro c hc
      obtain hdigit | rfl := hl.mem_spelling hc
      · rw [bne_iff_ne]
        rintro rfl
        exact absurd hdigit (by decide)
      · decide
    rw [List.takeWhile_append_of_pos hpass]
    cases e <;> simp [exponentSpelling]
  have hspelling : l.spelling = l'.spelling := by
    rw [← htake hl e, h, htake hl' e']
  rw [hspelling, List.append_cancel_left_eq] at h
  exact ⟨Literal.spelling_inj hl hl' hspelling, exponentSpelling_inj h⟩

/-! ## The layout of JSON -/

/-- The layout that marks fractional numbers is a literal with a point. -/
theorem positionalText_pointed (d : Decimal) :
    positionalText true (significant (digitsOf d.digits))
        ((digitsOf d.digits).length + d.exponent) = d.literal.pointed.spelling := by
  have hds := significant_ne_nil (digitsOf d.digits)
  simp only [positionalText, literal, Literal.pointed, Literal.spelling]
  split
  · simp [hds]
  · split
    · next h =>
      have hdrop : (significant (digitsOf d.digits)).drop
          ((digitsOf d.digits).length + d.exponent).toNat ≠ [] := by
        rw [Ne, List.drop_eq_nil_iff]
        omega
      simp [hdrop]
    · simp

/-- The leading digit and the others, with the exponent of the leading digit. -/
theorem exponentText_plus {ds : List Char} (h : ds ≠ []) (leading : ℤ) :
    exponentText "+" ds leading =
      (⟨ds.take 1, ds.drop 1⟩ : Literal).spelling ++ exponentSpelling (some leading) := by
  have hsign : (if leading < 0 then "-" else "+").toList ++ digitsOf leading.natAbs =
      (if leading < 0 then '-' else '+') :: digitsOf leading.natAbs := by
    split <;> rfl
  obtain ⟨c, cs, rfl⟩ := List.exists_cons_of_ne_nil h
  cases cs with
  | nil => simp [exponentText, Literal.spelling, exponentSpelling, hsign]
  | cons c' cs => simp [exponentText, Literal.spelling, exponentSpelling, hsign]

/-- **A number in JSON is a literal of the value, and perhaps an exponent.** -/
theorem layout_interchange (d : Decimal) :
    ∃ (l : Literal) (e : Option ℤ), l.IsNumeral ∧
      layout interchange d = l.spelling ++ exponentSpelling e ∧
      l.rational * 10 ^ e.getD 0 = d.value := by
  have hds := significant_ne_nil (digitsOf d.digits)
  cases hstyle : interchange.isPositional ((digitsOf d.digits).length + d.exponent - 1) with
  | true =>
      refine ⟨d.literal.pointed, none, (isNumeral_literal d).pointed, ?_, ?_⟩
      · simp only [layout, hstyle, if_true, exponentSpelling, List.append_nil]
        exact positionalText_pointed d
      · rw [Literal.rational_pointed, rational_literal, Option.getD_none, zpow_zero, mul_one]
  | false =>
      refine ⟨⟨(significant (digitsOf d.digits)).take 1, (significant (digitsOf d.digits)).drop 1⟩,
        some ((digitsOf d.digits).length + d.exponent - 1), ⟨?_, ?_, ?_⟩, ?_, ?_⟩
      · simp [hds]
      · exact fun c hc => isDigit_of_mem_significant (List.mem_of_mem_take hc)
      · exact fun c hc => isDigit_of_mem_significant (List.mem_of_mem_drop hc)
      · simp only [layout, hstyle, Bool.false_eq_true, if_false]
        exact exponentText_plus hds _
      · have hlength := List.length_pos_of_ne_nil hds
        rw [Literal.rational, List.take_append_drop, value_eq_significant, Option.getD_some,
          mul_assoc, ← zpow_add₀ (by norm_num), List.length_drop]
        congr 2
        omega

theorem value_eq_of_layout {d d' : Decimal} (h : layout interchange d = layout interchange d') :
    d.value = d'.value := by
  obtain ⟨l, e, hl, htext, hvalue⟩ := layout_interchange d
  obtain ⟨l', e', hl', htext', hvalue'⟩ := layout_interchange d'
  rw [htext, htext'] at h
  obtain ⟨rfl, rfl⟩ := spelling_exponent_inj hl hl' h
  rw [← hvalue, hvalue']

/-! ## Numbers -/

/-- A finite number is the only one with its text. -/
theorem eq_of_text_interchange {x y : Float} (hx : x.isFinite = true) (hy : y.isFinite = true)
    (h : text interchange x = text interchange y) : x = y := by
  have hminus (d : Decimal) (rest : List Char) : layout interchange d ≠ '-' :: rest := by
    obtain ⟨l, e, hl, htext, -⟩ := layout_interchange d
    rw [htext]
    exact hl.spelling_append_ne _ rest
  rw [text_of_isFinite _ hx, text_of_isFinite _ hy] at h
  obtain ⟨hsign, hlayout⟩ := sign_append_inj (hminus _) (hminus _) h
  have habs : Scalar.abs x = Scalar.abs y := by
    rw [Binary64.abs_eq, Binary64.abs_eq, ← ofRational_shortest interchange.tie hx,
      ← ofRational_shortest interchange.tie hy, value_eq_of_layout hlayout]
  cases hnegative : Binary64.isNegative x with
  | true =>
      rw [Binary64.abs_of_isNegative hnegative,
        Binary64.abs_of_isNegative (hsign ▸ hnegative)] at habs
      rw [← Binary64.neg_neg x, habs, Binary64.neg_neg]
  | false =>
      have hpositive {z : Float} (hz : Binary64.isNegative z = false) : Scalar.abs z = z :=
        Binary64.abs_of_not_isNegative (by simp [hz])
      rwa [hpositive hnegative, hpositive (hsign ▸ hnegative)] at habs

/-- What is not finite has no text of its own. -/
theorem text_of_not_isFinite {x : Float} (h : ¬x.isFinite = true) :
    text interchange x = "null" := by
  rw [text, if_neg h]
  split <;> rfl

/-- What a finite number is written with. -/
theorem mem_text_of_isFinite {x : Float} (h : x.isFinite = true) :
    ∀ c ∈ (text interchange x).toList, c.isDigit = true ∨ c ∈ ['.', 'e', '+', '-'] := by
  obtain ⟨l, e, hl, htext, -⟩ := layout_interchange (shortest interchange.tie x)
  intro c hc
  rw [text_of_isFinite _ h, htext] at hc
  simp only [String.toList_append, String.toList_ofList, List.mem_append] at hc
  obtain hsign | hspelling | hexponent := hc
  · rw [Numeral.sign] at hsign
    split at hsign <;> simp_all
  · obtain hdigit | rfl := hl.mem_spelling hspelling
    · exact .inl hdigit
    · simp
  · cases e with
    | none => simp [exponentSpelling] at hexponent
    | some e =>
        simp only [exponentSpelling, List.mem_cons] at hexponent
        obtain rfl | rfl | hdigit := hexponent
        · simp
        · split <;> simp
        · exact .inl (isDigit_of_mem_digitsOf hdigit)

theorem text_ne_null {x : Float} (h : x.isFinite = true) : text interchange x ≠ "null" := by
  intro hnull
  have hn := mem_text_of_isFinite h 'n' (by rw [hnull]; decide)
  exact absurd hn (by decide)

/-- What separates the values of JSON does not stand in a number. -/
theorem mem_text_interchange {x : Float} {c : Char} (h : c ∈ (text interchange x).toList) :
    c ≠ ',' ∧ c ≠ '\n' ∧ c ≠ '\x7d' := by
  by_cases hx : x.isFinite = true
  · refine ⟨?_, ?_, ?_⟩ <;> rintro rfl <;> exact absurd (mem_text_of_isFinite hx _ h) (by decide)
  · rw [text_of_not_isFinite hx] at h
    refine ⟨?_, ?_, ?_⟩ <;> rintro rfl <;> exact absurd h (by decide)

/-- A number as far as JSON can tell it: none where it is not finite. -/
def legible (x : Float) : Option Float :=
  if x.isFinite then some x else none

/-- **The text of a number tells the number**, if there is one. -/
theorem legible_eq_of_text {x y : Float} (h : text interchange x = text interchange y) :
    legible x = legible y := by
  by_cases hx : x.isFinite = true <;> by_cases hy : y.isFinite = true
  · rw [eq_of_text_interchange hx hy h]
  · exact absurd (h.trans (text_of_not_isFinite hy)) (text_ne_null hx)
  · exact absurd (h.symm.trans (text_of_not_isFinite hx)) (text_ne_null hy)
  · rw [legible, legible, if_neg hx, if_neg hy]

end Decimal

end GrowthOrder
