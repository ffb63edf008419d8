import GrowthOrder.Proofs.Recurrence.Printer

/-!
# GrowthOrder.Proofs.Recurrence.RoundTrip

Writing a recurrence and reading it back.

* `Recurrence.parse_text` — what is read from the canonical text of a recurrence is the recurrence
  with its like terms collected.
-/

namespace GrowthOrder

open Grammar

/-! ## Finite recurrences -/

namespace Recurrence

/-- No coefficient, constant or shift of the sum is an infinity or a NaN. -/
def IsFinite (r : Recurrence Float) : Prop :=
  ∀ t ∈ r.terms, t.IsFinite

/-- The summands of a finite recurrence that passes its checks can be written. -/
theorem IsChecked.writable {r : Recurrence Float} (hr : r.IsChecked) (hfinite : r.IsFinite) :
    ∀ t ∈ r.terms, t.Writable r.function r.parameters := by
  intro t ht
  have hfin := hfinite t ht
  cases t with
  | constant x => exact hfin
  | call c =>
      have hc : c ∈ r.calls := List.mem_filterMap.2 ⟨.call c, ht, rfl⟩
      obtain ⟨hfunction, hparameters⟩ := hr.rules.calls c hc
      exact ⟨hfunction, hparameters, (Call.checked_eq_ok_iff.1 (hr.calls c hc)).1, hfin.1, hfin.2⟩

end Recurrence

/-! ## Sums without a NaN -/

/-- A sum that counts is no NaN. -/
theorem Term.isNaN_of_counts {x : Float} (h : counts x = true) : x.isNaN = false := by
  rw [← Bool.not_eq_true]
  intro hnan
  exact Binary64.not_lt_abs_of_isNaN hnan (of_decide_eq_true h)

theorem isNaN_of_isFinite {x : Float} (h : x.isFinite = true) : x.isNaN = false := by
  rw [Binary64.isNaN_eq_parts]
  obtain ⟨s, hs⟩ | ⟨s, m, e, hm, hs⟩ := Binary64.parts_of_isFinite h
  · rw [hs]; rfl
  · rw [hs]; rfl

/-- What is left of finite terms after collecting has no NaN, though it may have infinities. -/
theorem Term.noNaN_collect {ts : List (Term Float)} (hts : ∀ t ∈ ts, t.IsFinite) :
    ∀ t ∈ collect ts, t.NoNaN := by
  intro t ht
  rw [collect, List.mem_append] at ht
  obtain ht | ht := ht
  · split at ht
    · next hcounts =>
      obtain rfl := List.mem_singleton.1 ht
      exact isNaN_of_counts hcounts
    · exact absurd ht List.not_mem_nil
  · obtain ⟨c, hc, rfl⟩ := List.mem_map.1 ht
    have hshifts : ∀ c ∈ Call.merge (calls ts), ∀ s ∈ c.shifts, s.isNaN = false := by
      refine Call.merge_parts (P := fun _ _ ss => ∀ s ∈ ss, Float.isNaN s = false) ?_
      intro c hc s hs
      obtain ⟨u, hu, huc⟩ := List.mem_filterMap.1 hc
      cases u with
      | constant x => exact absurd huc (by simp [call?])
      | call d =>
          obtain rfl := Option.some.inj huc
          exact isNaN_of_isFinite ((hts _ hu).2 s hs)
    exact ⟨isNaN_of_counts (List.mem_filter.1 hc).2, hshifts c (List.mem_filter.1 hc).1⟩

theorem Term.noNaN_of_isFinite {t : Term Float} (h : t.IsFinite) : t.NoNaN := by
  cases t with
  | constant x => exact isNaN_of_isFinite h
  | call c => exact ⟨isNaN_of_isFinite h.1, fun s hs => isNaN_of_isFinite (h.2 s hs)⟩

/-! ## Texts and the signs of zeros -/

theorem Decimal.amount_congr {x y : Float} (h : Binary64.Same x y) : amount x = amount y := by
  rw [amount, amount, h.add_zero_eq]

theorem Call.factorText_congr {x y : Float} (h : Binary64.Same x y) :
    factorText x = factorText y := by
  rw [factorText, factorText, h.beq (.refl 1.0), h.beq (.refl (-1.0)), Decimal.amount_congr h]

theorem Call.argumentText_congr {name : String} {x y : Float} (h : Binary64.Same x y) :
    argumentText name x = argumentText name y := by
  simp only [argumentText, h.beq (.refl 0.0), h.lt_zero_iff, Decimal.amount_congr h,
    Decimal.amount_congr h.neg]

theorem Call.Same.text {c d : Call Float} (h : c.Same d) : c.text = d.text := by
  have harguments {names : List String} {xs ys : List Float}
      (h : List.Forall₂ Binary64.Same xs ys) :
      List.zipWith argumentText names xs = List.zipWith argumentText names ys := by
    induction h generalizing names with
    | nil => rfl
    | cons h _ ih =>
        cases names with
        | nil => rfl
        | cons name names =>
            rw [List.zipWith_cons_cons, List.zipWith_cons_cons, argumentText_congr h, ih]
  rw [Call.text, Call.text, h.function, h.parameters, factorText_congr h.coefficient,
    harguments h.shifts]

theorem Term.Same.text {t u : Term Float} (h : t.Same u) : t.text = u.text := by
  cases h with
  | constant h => exact Decimal.amount_congr h
  | call h => exact h.text

/-- Sums that differ in the signs of zeros only have the same text. -/
theorem Recurrence.sumText_congr {ts us : List (Term Float)} (h : List.Forall₂ Term.Same ts us) :
    sumText ts = sumText us := by
  have hmore {ts us : List (Term Float)} (h : List.Forall₂ Term.Same ts us) :
      (ts.map fun t => joined t.text) = us.map fun u => joined u.text := by
    induction h with
    | nil => rfl
    | cons h _ ih => rw [List.map_cons, List.map_cons, h.text, ih]
  cases h with
  | nil => rfl
  | cons h hs => rw [sumText, sumText, h.text, hmore hs]

/-! ## Reading a text back -/

namespace Recurrence

theorem text_congr {r s : Recurrence Float} (hfunction : r.function = s.function)
    (hparameters : r.parameters = s.parameters) (hterms : List.Forall₂ Term.Same r.terms s.terms) :
    r.text = s.text := by
  rw [text, text, textAfterName, textAfterName, hfunction, hparameters, sumText_congr hterms]

/-- The equation that the canonical text of a recurrence writes out. -/
theorem exists_equation {r : Recurrence Float} (hr : r.IsChecked) (hne : r.parameters ≠ [])
    (hfinite : r.IsFinite) :
    ∃ e : Equation, Writes r.text.toList e.tokens ∧ e.Scoped ∧ e.left.function = r.function ∧
      e.left.parameters = r.parameters ∧
      List.Forall₂ Term.Same (Term.collect e.right.terms) (Term.collect r.terms) := by
  obtain ⟨-, hvalid, -⟩ := Call.checked_eq_ok_iff.1 hr.signature
  rw [List.forall_mem_cons] at hvalid
  obtain ⟨s, hsum, hfits, hsame⟩ := exists_sum hvalid.1 hvalid.2 hne (hr.writable hfinite)
  obtain ⟨first, others, hparameters⟩ := List.exists_cons_of_ne_nil hne
  have hnames : List.Forall₂ (fun text part => Writes text.toList part) r.parameters
      (r.parameters.map fun name => [.name name]) := by
    rw [List.forall₂_map_right_iff, List.forall₂_same]
    exact fun name hname => Writes.name (hvalid.2 name hname)
  have hheader : Writes
      ((r.function ++ "(" ++ String.intercalate ", " r.parameters).toList ++ [')'])
      (Header.mk r.function first others).tokens := by
    rw [Header.tokens, Header.parameters, ← hparameters, String.toList_append,
      String.toList_append, List.append_assoc, List.append_assoc]
    exact (Writes.name hvalid.1).sign (c := '(') rfl
      ((writes_separated hnames).sign (c := ')') rfl Writes.nil)
  have hheader_parameters : r.parameters = (Header.mk r.function first others).parameters :=
    hparameters
  refine ⟨⟨⟨r.function, first, others⟩, s⟩, ?_, ⟨?_, ?_⟩, rfl, hparameters.symm, hsame⟩
  · have hall := hheader.trailing.sign (c := '=') rfl hsum.blank
    simpa [text, textAfterName, Equation.tokens] using hall
  · exact hheader_parameters ▸ hr.rules.distinct
  · exact hheader_parameters ▸ hfits

/-- The call that is read from the left-hand side is `==` to the defined one. -/
theorem beq_signature {r : Recurrence Float} (hr : r.IsChecked) {h : Header}
    (hfunction : h.function = r.function) (hparameters : h.parameters = r.parameters) :
    (h.call == r.signature) = true := by
  have hzeros {names : List String} {ss : List Float} (hlength : names.length = ss.length)
      (hss : ∀ s ∈ ss, (s == 0.0) = true) : ((names.map fun _ => (0.0 : Float)) == ss) = true := by
    rw [list_beq_iff]
    induction names generalizing ss with
    | nil =>
        obtain rfl := List.length_eq_zero_iff.1 hlength.symm
        exact .nil
    | cons name names ih =>
        obtain ⟨s, ss, rfl⟩ := List.exists_cons_of_length_eq_add_one hlength.symm
        rw [List.forall_mem_cons] at hss
        exact .cons ((Binary64.beq_comm 0.0 s).trans hss.1) (ih (Nat.succ.inj hlength) hss.2)
  refine (Call.beq_iff _ _).2 ⟨?_, hfunction, hparameters, ?_⟩
  · exact (Binary64.beq_comm 1.0 _).trans hr.rules.coefficient
  · refine hzeros ?_ hr.rules.shifts
    rw [hparameters]
    exact (Call.checked_eq_ok_iff.1 hr.signature).1

/-- A scoped equation that is written out is read. -/
theorem parse_of_writes {text : String} {e : Equation} (h : Writes text.toList e.tokens)
    (hscoped : e.Scoped) : parse text = .ok e.recurrence := by
  obtain ⟨ls, hls, htokens⟩ := h.tokens
  have hvalid : ∀ name, .name name ∈ ls.map Lexeme.token → Name.isValid name = true := by
    intro name hname
    rw [htokens] at hname
    exact h.written _ hname
  rw [parse, hls]
  exact (Parser.recurrence_eq_ok_iff hvalid).2 ⟨e, htokens, hscoped, rfl⟩

/-- What is read from the canonical text of a recurrence. -/
theorem exists_read {r : Recurrence Float} (hr : r.IsChecked) (hne : r.parameters ≠ [])
    (hfinite : r.IsFinite) :
    ∃ e : Equation, parse r.text = .ok e.recurrence ∧ e.left.function = r.function ∧
      e.left.parameters = r.parameters ∧ (e.left.call == r.signature) = true ∧
      List.Forall₂ Term.Same e.recurrence.terms (Term.collect r.terms) := by
  obtain ⟨e, hwrites, hscoped, hfunction, hparameters, hterms⟩ := exists_equation hr hne hfinite
  exact ⟨e, parse_of_writes hwrites hscoped, hfunction, hparameters,
    beq_signature hr hfunction hparameters, hterms⟩

/-- **The canonical text of a recurrence reads back.**  For any recurrence that passes the checks of
the model, with at least one variable and finite numbers, reading its text gives the same function
of the same variables with the like terms collected; if they were collected already, the recurrence
itself comes back, and its text is the same again. -/
theorem parse_text {r : Recurrence Float} (hr : r.IsChecked) (hne : r.parameters ≠ [])
    (hfinite : r.IsFinite) :
    ∃ read, parse r.text = .ok read ∧
      (read == { r with terms := Term.collect r.terms }) = true ∧
      ((Term.collect r.terms == r.terms) = true →
        (read == r) = true ∧ read.text = r.text) := by
  obtain ⟨e, hread, hfunction, hparameters, hsignature, hterms⟩ := exists_read hr hne hfinite
  have hback (hcollected : (Term.collect r.terms == r.terms) = true) :
      List.Forall₂ Term.Same e.recurrence.terms r.terms :=
    forall₂_trans (R := Term.Same) (fun _ _ _ => Term.Same.trans) hterms
      (Term.sames_of_beq hcollected)
  refine ⟨e.recurrence, hread, ?_, fun hcollected => ⟨?_, ?_⟩⟩
  · exact (beq_iff _ _).2 ⟨hsignature,
      beq_of_forall₂ (fun _ _ => Term.beq_of_same) hterms (Term.noNaN_collect hfinite)⟩
  · have hsame := hback hcollected
    exact (beq_iff _ _).2 ⟨hsignature, beq_of_forall₂ (fun _ _ => Term.beq_of_same) hsame
      fun t ht => Term.noNaN_of_isFinite (hfinite t ht)⟩
  · have hsame := hback hcollected
    exact text_congr hfunction hparameters hsame

/-- Lattice paths with a fractional step: `T(n, m) = 7 - 2.5*T(n-1, m) + T(n, m-0.5)`. -/
def latticePaths : Recurrence Float :=
  ⟨⟨1.0, "T", ["n", "m"], [0.0, 0.0]⟩,
    [.constant 7.0, .call ⟨-2.5, "T", ["n", "m"], [-1.0, 0.0]⟩,
      .call ⟨1.0, "T", ["n", "m"], [0.0, -0.5]⟩]⟩

theorem calls_latticePaths : latticePaths.calls =
    [⟨-2.5, "T", ["n", "m"], [-1.0, 0.0]⟩, ⟨1.0, "T", ["n", "m"], [0.0, -0.5]⟩] :=
  rfl

theorem isChecked_latticePaths : latticePaths.IsChecked := by
  have hnames : ∀ name ∈ ["T", "n", "m"], Name.isValid name = true := by decide +kernel
  have hcalls (P : Call Float → Prop) (h : P ⟨-2.5, "T", ["n", "m"], [-1.0, 0.0]⟩)
      (h' : P ⟨1.0, "T", ["n", "m"], [0.0, -0.5]⟩) : ∀ c ∈ latticePaths.calls, P c := by
    rw [calls_latticePaths, List.forall_mem_cons, List.forall_mem_singleton]
    exact ⟨h, h'⟩
  refine ⟨Call.checked_eq_ok_iff.2 ⟨rfl, hnames, rfl⟩, hcalls _ ?_ ?_,
    checked_eq_ok_iff.2 ⟨rfl, ?_⟩⟩
  · exact Call.checked_eq_ok_iff.2 ⟨rfl, hnames, rfl⟩
  · exact Call.checked_eq_ok_iff.2 ⟨rfl, hnames, rfl⟩
  · exact ⟨by decide +kernel, by decide +kernel, by decide +kernel,
      hcalls _ ⟨rfl, rfl⟩ ⟨rfl, rfl⟩⟩

theorem parse_text_latticePaths :
    latticePaths.IsChecked ∧ latticePaths.parameters ≠ [] ∧ latticePaths.IsFinite ∧
      ∃ read, parse latticePaths.text = .ok read ∧
        (read == { latticePaths with terms := Term.collect latticePaths.terms }) = true ∧
        ((Term.collect latticePaths.terms == latticePaths.terms) = true →
          (read == latticePaths) = true ∧ read.text = latticePaths.text) := by
  have hne : latticePaths.parameters ≠ [] := List.cons_ne_nil _ _
  have hfinite : latticePaths.IsFinite := by
    have hnumbers : ∀ x ∈ [7.0, -2.5, -1.0, 0.0, 1.0, -0.5], Float.isFinite x = true := by
      decide +kernel
    simp only [List.forall_mem_cons] at hnumbers
    simp [IsFinite, latticePaths, Term.IsFinite, hnumbers]
  exact ⟨isChecked_latticePaths, hne, hfinite, parse_text isChecked_latticePaths hne hfinite⟩

end Recurrence

end GrowthOrder
