import GrowthOrder.Proofs.Binary64.Range
import GrowthOrder.Proofs.Recurrence.Collected
import GrowthOrder.Proofs.Recurrence.RoundTrip

/-!
# GrowthOrder.Proofs.Recurrence.Overflow

Which texts are read as recurrences whose numbers are all finite.  Nothing in the reader looks for
an overflow: a literal from `limit` on is read as an infinity, and so is a sum of like terms that
leaves the range.

* `Literal.isFinite_value_iff` — when a literal is finite.
* `Equation.isFinite_recurrence_iff` — the numbers of a recurrence are finite exactly if those of
  its equation are `InRange`.
* `Equation.InRange.of_le` — they are if the literals are small for the number of summands, and
  literals of at most `2 ^ 970` are small for any number of summands.
* `Recurrence.exists_parse_literalText` — sums of literals are read even if they overflow.
-/

namespace GrowthOrder

open Grammar
open Binary64 (limit Within sumBound)

/-! ## Literals -/

namespace Literal

theorem rational_nonneg (l : Literal) : 0 ≤ l.rational := by
  rw [rational]
  positivity

/-- **A literal is finite exactly if its value is below the limit.** -/
theorem isFinite_value_iff (l : Literal) : l.value.isFinite = true ↔ l.rational < limit := by
  rw [value_eq, Binary64.isFinite_ofRational_iff l.rational_nonneg]

theorem within_value {l : Literal} {k : Nat} (h : l.rational ≤ 2 ^ k)
    (hk : (2 : ℚ) ^ k < 2 ^ 1024) : Within (2 ^ k) l.value := by
  rw [value_eq]
  exact Binary64.within_ofRational l.rational_nonneg h hk

end Literal

/-- **A shift is finite exactly if no literal beyond the limit is in the argument.** -/
theorem Grammar.Argument.isFinite_shift_iff (a : Argument) :
    a.shift.isFinite = true ↔ ∀ l, .number l ∈ a.tokens → l.rational < limit := by
  obtain ⟨name, _ | l | l⟩ := a
  · refine iff_of_true (Binary64.isFinite_of_isZero Binary64.isZero_zero) fun l hl => ?_
    simp [Argument.tokens, Offset.tokens] at hl
  · rw [Argument.shift, Offset.shift, l.isFinite_value_iff]
    simp [Argument.tokens, Offset.tokens]
  · rw [Argument.shift, Offset.shift, (Binary64.same_zero_sub l.value).isFinite,
      Binary64.isFinite_neg, l.isFinite_value_iff]
    simp [Argument.tokens, Offset.tokens]

/-! ## Sums that count -/

namespace Term

/-- An infinity counts. -/
theorem counts_of_isInf {x : Float} (h : x.isInf = true) : counts x = true := by
  obtain ⟨s, rfl⟩ := Binary64.eq_of_isInf h
  cases s <;> decide +kernel

/-- Whether a sum is finite if it counts: it is, unless it is an infinity. -/
theorem isFinite_of_counts_iff (x : Float) :
    (counts x = true → x.isFinite = true) ↔ x.isInf = false := by
  rw [Binary64.isFinite_iff]
  constructor
  · intro h
    rw [← Bool.not_eq_true]
    intro hinf
    exact Bool.false_ne_true ((h (counts_of_isInf hinf)).1.symm.trans hinf)
  · exact fun h hcounts => ⟨h, isNaN_of_counts hcounts⟩

/-- **When the numbers of a collected sum are finite.** -/
theorem isFinite_collect_iff (ts : List (Term Float)) :
    (∀ t ∈ collect ts, t.IsFinite) ↔ (constantSum ts).isInf = false ∧
      (∀ c ∈ Call.merge (calls ts), c.coefficient.isInf = false) ∧
      ∀ c ∈ Call.merge (calls ts), counts c.coefficient = true →
        ∀ s ∈ c.shifts, s.isFinite = true := by
  have hconstant :
      (∀ t ∈ (if counts (constantSum ts) then [Term.constant (constantSum ts)] else []),
        t.IsFinite) ↔ (constantSum ts).isInf = false := by
    rw [← isFinite_of_counts_iff]
    split
    · next h => simp [h, IsFinite]
    · next h => simp [h]
  rw [collect, List.forall_mem_append, hconstant]
  refine and_congr_right fun _ => ?_
  simp only [List.forall_mem_map, List.mem_filter, and_imp, IsFinite]
  constructor
  · intro h
    exact ⟨fun c hc => (isFinite_of_counts_iff _).1 fun hcounts => (h c hc hcounts).1,
      fun c hc hcounts => (h c hc hcounts).2⟩
  · intro h c hc hcounts
    exact ⟨(isFinite_of_counts_iff _).2 (h.1 c hc) hcounts, h.2 c hc hcounts⟩

/-- Constants are collected into a finite sum exactly if their sum is no infinity. -/
theorem isFinite_collect_constants (xs : List Float) :
    (∀ t ∈ collect (xs.map constant), t.IsFinite) ↔ (xs.foldl (· + ·) 0.0).isInf = false := by
  have hconstants : (xs.map constant).filterMap constant? = xs := by
    induction xs with
    | nil => rfl
    | cons x xs ih => rw [List.map_cons, List.filterMap_cons, constant?, ih]
  have hcalls : calls (xs.map constant) = [] := by
    rw [calls, List.filterMap_eq_nil_iff]
    intro t ht
    obtain ⟨x, -, rfl⟩ := List.mem_map.1 ht
    rfl
  rw [isFinite_collect_iff, hcalls, constantSum, hconstants]
  exact and_iff_left ⟨fun c hc => absurd hc List.not_mem_nil,
    fun c hc => absurd hc List.not_mem_nil⟩

end Term

/-! ## Bounded sums -/

section Bounded

variable {k i : Nat}

theorem Call.within_addTo {c : Call Float} {ds : List (Call Float)}
    (hc : Within (2 ^ k) c.coefficient) (hds : ∀ d ∈ ds, Within (sumBound k i) d.coefficient)
    (hb : sumBound k (i + 1) < 2 ^ 1024) :
    ∀ d ∈ c.addTo ds, Within (sumBound k (i + 1)) d.coefficient := by
  have hmono {x : Float} (h : Within (sumBound k i) x) : Within (sumBound k (i + 1)) x :=
    h.mono (Binary64.sumBound_mono k (Nat.le_succ i))
  induction ds with
  | nil => simpa [addTo] using hc.mono (Binary64.two_pow_le_sumBound k i)
  | cons d ds ih =>
      rw [List.forall_mem_cons] at hds
      rw [addTo]
      split
      · exact List.forall_mem_cons.2 ⟨hds.1.add hc hb, fun d hd => hmono (hds.2 d hd)⟩
      · exact List.forall_mem_cons.2 ⟨hmono hds.1, ih hds.2⟩

/-- **Merged calls are bounded by how many calls there are.** -/
theorem Call.within_merge {cs : List (Call Float)} (hcs : ∀ c ∈ cs, Within (2 ^ k) c.coefficient)
    (hb : sumBound k cs.length < 2 ^ 1024) :
    ∀ d ∈ merge cs, Within (sumBound k cs.length) d.coefficient := by
  suffices h : ∀ i (ds : List (Call Float)), (∀ d ∈ ds, Within (sumBound k i) d.coefficient) →
      sumBound k (i + cs.length) < 2 ^ 1024 → ∀ d ∈ cs.foldl (fun ds c => c.addTo ds) ds,
        Within (sumBound k (i + cs.length)) d.coefficient by
    rw [← Nat.zero_add cs.length] at hb ⊢
    exact h 0 [] (by simp) hb
  clear hb
  induction cs with
  | nil => exact fun i ds hds _ => hds
  | cons c cs ih =>
      intro i ds hds hb
      rw [List.forall_mem_cons] at hcs
      rw [List.length_cons, ← Nat.succ_add_eq_add_succ] at hb ⊢
      refine ih hcs.2 _ _ (within_addTo hcs.1 hds ?_) hb
      exact (Binary64.sumBound_mono k (Nat.le_add_right (i + 1) cs.length)).trans_lt hb

namespace Term

/-- The constant or the coefficient of a term. -/
def amount : Term Float → Float
  | constant x => x
  | call c => c.coefficient

theorem within_signed {t : Term Float} {b : ℚ} (negative : Bool) (h : Within b t.amount) :
    Within b (t.signed negative).amount := by
  cases negative with
  | false => exact h
  | true =>
      cases t with
      | constant x => exact Within.neg h
      | call c => exact Within.neg h

/-- The sum of the constants is bounded by how many summands there are. -/
theorem within_constantSum {ts : List (Term Float)} (hts : ∀ t ∈ ts, Within (2 ^ k) t.amount)
    (hb : sumBound k ts.length < 2 ^ 1024) : Within (sumBound k ts.length) (constantSum ts) := by
  have hle := Binary64.sumBound_mono k (List.length_filterMap_le constant? ts)
  have hzero : Within (sumBound k 0) 0.0 :=
    Binary64.within_of_isZero Binary64.isZero_zero (by simp [sumBound])
  have hconstants : ∀ x ∈ ts.filterMap constant?, Within (2 ^ k) x := by
    intro x hx
    obtain ⟨t, ht, htx⟩ := List.mem_filterMap.1 hx
    cases t with
    | constant y =>
        obtain rfl := Option.some.inj htx
        exact hts (.constant y) ht
    | call c => exact absurd htx (by simp [constant?])
  have hsum := Binary64.within_foldl hzero hconstants (by simpa using hle.trans_lt hb)
  rw [Nat.zero_add] at hsum
  exact hsum.mono hle

theorem within_calls {ts : List (Term Float)} (hts : ∀ t ∈ ts, Within (2 ^ k) t.amount) :
    ∀ c ∈ calls ts, Within (2 ^ k) c.coefficient := by
  intro c hc
  obtain ⟨t, ht, htc⟩ := List.mem_filterMap.1 hc
  cases t with
  | constant x => exact absurd htc (by simp [call?])
  | call d =>
      obtain rfl := Option.some.inj htc
      exact hts (.call d) ht

end Term

end Bounded

/-! ## Literals of an equation -/

namespace Grammar

theorem mem_separated_of_mem {t : Token} {part : List Token} {parts : List (List Token)}
    (hpart : part ∈ parts) (ht : t ∈ part) : t ∈ separated parts := by
  cases parts with
  | nil => exact absurd hpart List.not_mem_nil
  | cons first parts =>
      rw [separated, List.mem_append, List.mem_flatMap]
      obtain rfl | hpart := List.mem_cons.1 hpart
      · exact .inl ht
      · exact .inr ⟨part, hpart, List.mem_cons_of_mem _ ht⟩

theorem Application.mem_tokens_of_argument {a : Application} {b : Argument} (hb : b ∈ a.arguments)
    {t : Token} (ht : t ∈ b.tokens) : t ∈ a.tokens := by
  have hmem := mem_separated_of_mem (List.mem_map_of_mem (f := Argument.tokens) hb) ht
  simp [Application.tokens, hmem]

theorem Application.mem_tokens_of_factor {a : Application} {t : Token} (ht : t ∈ a.factor.tokens) :
    t ∈ a.tokens := by
  simp [Application.tokens, ht]

theorem Sum.mem_tokens_of_operand {s : Sum} {o : Operand} (ho : o ∈ s.operands) {t : Token}
    (ht : t ∈ o.tokens) : t ∈ s.tokens := by
  rw [Sum.tokens, List.mem_append, List.mem_flatMap]
  obtain rfl | ho := List.mem_cons.1 ho
  · exact .inl (List.mem_append_right _ ht)
  · obtain ⟨next, hnext, rfl⟩ := List.mem_map.1 ho
    exact .inr ⟨next, hnext, List.mem_cons_of_mem _ (List.mem_append_right _ ht)⟩

namespace Equation

theorem mem_tokens_of_operand {e : Equation} {o : Operand} (ho : o ∈ e.right.operands) {t : Token}
    (ht : t ∈ o.tokens) : t ∈ e.tokens :=
  List.mem_append_right _ (List.mem_cons_of_mem _ (Sum.mem_tokens_of_operand ho ht))

/-- No sum of like terms is an infinity, and no call that is like one that is kept has a literal
beyond the limit among its shifts. -/
structure InRange (e : Equation) : Prop where
  constants : (Term.constantSum e.right.terms).isInf = false
  coefficients : ∀ c ∈ Call.merge (Term.calls e.right.terms), c.coefficient.isInf = false
  shifts : ∀ c ∈ Call.merge (Term.calls e.right.terms), Term.counts c.coefficient = true →
    ∀ a, .application a ∈ e.right.operands → a.call.shifts = c.shifts →
      ∀ b ∈ a.arguments, ∀ l, .number l ∈ b.tokens → l.rational < limit

/-- Merged calls have the shifts of calls that are written. -/
theorem exists_application {e : Equation} {c : Call Float}
    (hc : c ∈ Call.merge (Term.calls e.right.terms)) :
    ∃ a, .application a ∈ e.right.operands ∧ a.call.shifts = c.shifts :=
  Call.merge_parts (P := fun _ _ ss => ∃ a, .application a ∈ e.right.operands ∧ a.call.shifts = ss)
    (Parser.calls_terms_parts
      (P := fun _ _ ss => ∃ a, .application a ∈ e.right.operands ∧ a.call.shifts = ss)
      fun a ha => ⟨a, ha, rfl⟩) c hc

/-- **The numbers of a recurrence are finite exactly if those of its equation are in range.** -/
theorem isFinite_recurrence_iff (e : Equation) : e.recurrence.IsFinite ↔ e.InRange := by
  rw [Recurrence.IsFinite, recurrence, Term.isFinite_collect_iff]
  constructor
  · rintro ⟨hconstants, hcoefficients, hshifts⟩
    refine ⟨hconstants, hcoefficients, fun c hc hcounts a _ hshift b hb => ?_⟩
    refine b.isFinite_shift_iff.1 (hshifts c hc hcounts _ ?_)
    exact hshift ▸ List.mem_map_of_mem hb
  · rintro ⟨hconstants, hcoefficients, hliterals⟩
    refine ⟨hconstants, hcoefficients, fun c hc hcounts s hs => ?_⟩
    obtain ⟨a, ha, hshift⟩ := exists_application hc
    rw [← hshift] at hs
    obtain ⟨b, hb, rfl⟩ := List.mem_map.1 hs
    exact b.isFinite_shift_iff.2 (hliterals c hc hcounts a ha hshift b hb)

theorem length_terms (s : Sum) : s.terms.length = s.operands.length := by
  simp [Sum.terms, Sum.operands]

/-- The terms of an equation are bounded by its literals and 1. -/
theorem within_terms {e : Equation} {k : Nat} (hl : ∀ l, .number l ∈ e.tokens → l.rational ≤ 2 ^ k)
    (hk : (2 : ℚ) ^ k < 2 ^ 1024) : ∀ t ∈ e.right.terms, Within (2 ^ k) t.amount := by
  intro t ht
  obtain ⟨o, ho, negative, rfl⟩ := Parser.exists_operand_of_mem_terms ht
  refine Term.within_signed negative ?_
  have hliteral {l : Literal} (hmem : .number l ∈ o.tokens) : Within (2 ^ k) l.value :=
    Literal.within_value (hl l (mem_tokens_of_operand ho hmem)) hk
  cases o with
  | number l => exact hliteral (List.mem_singleton_self _)
  | application a =>
      have hfactor {l : Literal} (hmem : .number l ∈ a.factor.tokens) : Within (2 ^ k) l.value :=
        hliteral (Application.mem_tokens_of_factor hmem)
      change Within (2 ^ k) a.factor.coefficient
      generalize a.factor = f at hfactor
      cases f with
      | none => exact Binary64.within_one hk
      | number l => exact hfactor (List.mem_singleton_self _)
      | starred l => exact hfactor List.mem_cons_self

/-- **Small literals are in range.**  Literals of at most `2 ^ k` keep the numbers of a recurrence
finite if the bound of as many summands as there are stays below `2 ^ 1024`. -/
theorem InRange.of_le {e : Equation} {k : Nat} (hl : ∀ l, .number l ∈ e.tokens → l.rational ≤ 2 ^ k)
    (hb : sumBound k e.right.operands.length < 2 ^ 1024) : e.InRange := by
  have hk : (2 : ℚ) ^ k < 2 ^ 1024 := (Binary64.two_pow_le_sumBound k _).trans_lt hb
  have hts := within_terms hl hk
  rw [← length_terms] at hb
  have hcalls : sumBound k (Term.calls e.right.terms).length < 2 ^ 1024 :=
    (Binary64.sumBound_mono k (List.length_filterMap_le _ _)).trans_lt hb
  refine ⟨?_, fun c hc => ?_, fun c _ _ a ha _ b hb l hmem => ?_⟩
  · exact ((Binary64.isFinite_iff _).1 (Term.within_constantSum hts hb).finite).1
  · have hmerged := Call.within_merge (Term.within_calls hts) hcalls c hc
    exact ((Binary64.isFinite_iff _).1 hmerged.finite).1
  · have hmem' := mem_tokens_of_operand ha (Application.mem_tokens_of_argument hb hmem)
    exact l.isFinite_value_iff.1 (Literal.within_value (hl l hmem') hk).finite

end Equation

end Grammar

/-! ## Texts -/

namespace Recurrence

/-- The canonical text of a recurrence that is read with finite numbers reads back. -/
theorem exists_read_of_isFinite {e : Equation} (hr : e.recurrence.IsChecked)
    (hfinite : e.recurrence.IsFinite) :
    ∃ read, parse e.recurrence.text = .ok read ∧ (read == e.recurrence) = true := by
  obtain ⟨e', hread, -, -, hsignature, hterms⟩ :=
    exists_read hr (List.cons_ne_nil _ _) hfinite
  have hagain : Term.collect e.recurrence.terms = e.recurrence.terms :=
    Term.collect_collect e.right.terms
  rw [hagain] at hterms
  exact ⟨e'.recurrence, hread, (beq_iff _ _).2 ⟨hsignature,
    beq_of_forall₂ (fun _ _ => Term.beq_of_same) hterms
      fun t ht => Term.noNaN_of_isFinite (hfinite t ht)⟩⟩

/-- **Which texts are read as finite recurrences.**  A text that is read is an equation.  The
defined call is finite always.  The numbers of the sum are finite exactly if those of the equation
are in range, so in particular if its literals are small for the number of its summands.  And then
the canonical text of the recurrence reads back as an equal one. -/
theorem isFinite_iff_of_parse {text : String} {r : Recurrence Float} (h : parse text = .ok r) :
    ∃ ls, Lexer.tokens (Glyph.scan text).1 = .ok ls ∧
      ∃ e : Equation, ls.map Lexeme.token = e.tokens ∧ r = e.recurrence ∧
        (Term.call r.signature).IsFinite ∧ (r.IsFinite ↔ e.InRange) ∧
        (∀ k : Nat, (∀ l, .number l ∈ e.tokens → l.rational ≤ 2 ^ k) →
          k ≤ 970 ∨ e.right.operands.length * 2 ^ k < 2 ^ 1024 → r.IsFinite) ∧
        (r.IsFinite → ∃ read, parse r.text = .ok read ∧ (read == r) = true) := by
  obtain ⟨ls, hls, e, htokens, -, rfl, hchecked⟩ := exists_scoped_of_parse h
  have hsignature : (Term.call e.left.call).IsFinite := by
    have hone : (1.0 : Float).isFinite = true := by decide +kernel
    refine ⟨hone, fun s hs => ?_⟩
    obtain ⟨-, -, rfl⟩ := List.mem_map.1 hs
    exact Binary64.isFinite_of_isZero Binary64.isZero_zero
  refine ⟨ls, hls, e, htokens, rfl, hsignature, e.isFinite_recurrence_iff, fun k hl hk => ?_,
    exists_read_of_isFinite hchecked⟩
  exact e.isFinite_recurrence_iff.2 (.of_le hl (Binary64.sumBound_lt hk))

/-- Like terms with fractions: `T(n) = 2*T(n-1) + 0.5*T(n-1) - 3`. -/
theorem isFinite_iff_of_merged_calls :
    ∃ r, parse "T(n) = 2*T(n-1) + 0.5*T(n-1) - 3" = .ok r ∧
      ∃ ls, Lexer.tokens (Glyph.scan "T(n) = 2*T(n-1) + 0.5*T(n-1) - 3").1 = .ok ls ∧
        ∃ e : Equation, ls.map Lexeme.token = e.tokens ∧ r = e.recurrence ∧
          (Term.call r.signature).IsFinite ∧ (r.IsFinite ↔ e.InRange) ∧
          (∀ k : Nat, (∀ l, .number l ∈ e.tokens → l.rational ≤ 2 ^ k) →
            k ≤ 970 ∨ e.right.operands.length * 2 ^ k < 2 ^ 1024 → r.IsFinite) ∧
          (r.IsFinite → ∃ read, parse r.text = .ok read ∧ (read == r) = true) := by
  obtain ⟨r, hr⟩ := exists_ok "T(n) = 2*T(n-1) + 0.5*T(n-1) - 3" (by decide +kernel)
  exact ⟨r, hr, isFinite_iff_of_parse hr⟩

/-! ## Sums of literals -/

/-- Literals added up. -/
def literalSum (l : Literal) (ls : List Literal) : Sum :=
  ⟨⟨false, .number l⟩, ls.map fun l => (.plus, ⟨false, .number l⟩)⟩

/-- An equation that has some literals, added up, on its right. -/
def literalText (l : Literal) (ls : List Literal) : String :=
  "T(n) = " ++ String.intercalate " + " ((l :: ls).map fun l => String.ofList l.spelling)

theorem tokens_literalSum_cons (l l' : Literal) (ls : List Literal) :
    (literalSum l (l' :: ls)).tokens = [.number l] ++ .plus :: (literalSum l' ls).tokens :=
  rfl

theorem writes_literalSum {l : Literal} {ls : List Literal} (hl : l.IsNumeral)
    (hls : ∀ l ∈ ls, l.IsNumeral) :
    Writes (String.intercalate " + " ((l :: ls).map fun l => String.ofList l.spelling)).toList
      (literalSum l ls).tokens := by
  induction ls generalizing l with
  | nil => simpa [literalSum, Sum.tokens, Summand.tokens, Operand.tokens] using Writes.number hl
  | cons l' ls ih =>
      rw [List.forall_mem_cons] at hls
      have hall := (Writes.number hl).trailing.sign (c := '+') rfl (ih hls.1 hls.2).blank
      rw [tokens_literalSum_cons]
      simpa [String.intercalate_cons_cons] using hall

/-- **Literals are read however long and however many they are.**  Their recurrence is finite
exactly if their sum is no infinity. -/
theorem exists_parse_literalText {l : Literal} {ls : List Literal} (hl : l.IsNumeral)
    (hls : ∀ l ∈ ls, l.IsNumeral) :
    ∃ r, parse (literalText l ls) = .ok r ∧
      (r.IsFinite ↔ (((l :: ls).map Literal.value).foldl (· + ·) 0.0).isInf = false) := by
  have hname (name : String) (h : name ∈ ["T", "n"]) : Name.isValid name = true := by
    revert name
    decide +kernel
  have hheader : Writes ("T(n) ".toList) (Header.mk "T" "n" []).tokens :=
    ((Writes.name (hname "T" (by simp))).sign (c := '(') rfl
      ((Writes.name (hname "n" (by simp))).sign (c := ')') rfl Writes.nil)).trailing
  have hwrites : Writes (literalText l ls).toList
      (Equation.mk ⟨"T", "n", []⟩ (literalSum l ls)).tokens := by
    have hall := hheader.sign (c := '=') rfl (writes_literalSum hl hls).blank
    simpa [literalText, Equation.tokens] using hall
  have hscoped : (Equation.mk ⟨"T", "n", []⟩ (literalSum l ls)).Scoped := by
    refine ⟨List.nodup_singleton _, fun o ho => ?_⟩
    have hoperands : (literalSum l ls).operands = (l :: ls).map Operand.number := by
      simp [Sum.operands, literalSum]
    obtain ⟨l', -, rfl⟩ := List.mem_map.1 (hoperands ▸ ho)
    trivial
  refine ⟨_, parse_of_writes hwrites hscoped, ?_⟩
  have hterms : (literalSum l ls).terms = ((l :: ls).map Literal.value).map .constant := by
    simp [Sum.terms, literalSum, Summand.term, Term.signed, Operand.term, Sign.isMinus]
  rw [IsFinite, Equation.recurrence, hterms]
  exact Term.isFinite_collect_constants _

/-- A digit with zeros behind it. -/
def padded (digit : Char) (zeros : Nat) : Literal :=
  ⟨digit :: List.replicate zeros '0', []⟩

theorem isNumeral_padded {digit : Char} (h : digit.isDigit = true) (zeros : Nat) :
    (padded digit zeros).IsNumeral where
  ne_nil := List.cons_ne_nil _ _
  whole c hc := by
    obtain rfl | hc := List.mem_cons.1 hc
    · exact h
    · rw [List.eq_of_mem_replicate hc]
      decide
  fraction c hc := absurd hc List.not_mem_nil

/-- **A recurrence that is read need not be finite.**  One long literal makes an infinity, and so do
two that are finite when they are added. -/
theorem exists_parse_not_isFinite :
    (∃ r, parse (literalText (padded '1' 309) []) = .ok r ∧ ¬r.IsFinite) ∧
      (padded '9' 307).value.isFinite = true ∧
        ∃ r, parse (literalText (padded '9' 307) [padded '9' 307]) = .ok r ∧ ¬r.IsFinite := by
  have hone : (padded '1' 309).IsNumeral := isNumeral_padded (by decide) 309
  have hnine : (padded '9' 307).IsNumeral := isNumeral_padded (by decide) 307
  obtain ⟨r, hr, hfinite⟩ := exists_parse_literalText hone (List.forall_mem_nil _)
  obtain ⟨s, hs, hfinite'⟩ := exists_parse_literalText hnine (List.forall_mem_singleton.2 hnine)
  refine ⟨⟨r, hr, ?_⟩, by decide +kernel, s, hs, ?_⟩
  · rw [hfinite]
    decide +kernel
  · rw [hfinite']
    decide +kernel

end Recurrence

end GrowthOrder
