import GrowthOrder.Proofs.Recurrence.Parser

/-!
# GrowthOrder.Proofs.Recurrence.NormalForm

The recurrences that texts denote.  A text may repeat shifts, spread a constant over several
summands and let terms cancel; none of this is left in the recurrence that is read from it.

* `Term.collect_eq_append`, `Term.counts_of_mem_collect` — what a collected sum looks like.
* `Recurrence.isNormal_of_parse` — every text that is read denotes a recurrence in normal form.
-/

namespace GrowthOrder

/-! ## Collected sums -/

section Collected

variable {α : Type} [Scalar α]

/-- The number that a summand is a multiple of, the constant itself if it is one. -/
def Term.coefficient : Term α → α
  | constant c => c
  | call c => c.coefficient

/-- Shifts that are equal one by one are the same. -/
theorem Call.isEqv_of_beq {xs ys : List α} (h : (xs == ys) = true) :
    xs.isEqv ys sameShift = true := by
  induction xs generalizing ys with
  | nil =>
      cases ys with
      | nil => rfl
      | cons y ys => exact absurd h Bool.false_ne_true
  | cons x xs ih =>
      cases ys with
      | nil => exact absurd h Bool.false_ne_true
      | cons y ys =>
          rw [List.cons_beq_cons, Bool.and_eq_true] at h
          rw [List.isEqv, sameShift, h.1, Bool.true_or, ih h.2, Bool.and_self]

/-- Calls that are left unlike have no two equal lists of shifts. -/
theorem Call.pairwise_shifts_merge (cs : List (Call α)) :
    (merge cs).Pairwise fun c d => (c.shifts == d.shifts) = false := by
  refine (pairwise_merge cs).imp fun hunlike => ?_
  refine (Bool.not_eq_true _).mp fun hbeq => ?_
  rw [alike, isEqv_of_beq hbeq] at hunlike
  exact Bool.noConfusion hunlike

/-- A collected sum is one constant or none, and calls behind it. -/
theorem Term.collect_eq_append (ts : List (Term α)) :
    ∃ c : Option α, collect ts = c.toList.map constant ++ (calls (collect ts)).map call := by
  rw [calls_collect, collect]
  split
  · exact ⟨some (constantSum ts), rfl⟩
  · exact ⟨none, rfl⟩

/-- Every coefficient of a collected sum counts. -/
theorem Term.counts_of_mem_collect {ts : List (Term α)} {t : Term α} (h : t ∈ collect ts) :
    counts t.coefficient = true := by
  rw [collect, List.mem_append] at h
  obtain h | h := h
  · split at h
    · next hcounts =>
      obtain rfl := List.mem_singleton.1 h
      exact hcounts
    · exact absurd h List.not_mem_nil
  · obtain ⟨c, hc, rfl⟩ := List.mem_map.1 h
    exact (List.mem_filter.1 hc).2

end Collected

/-! ## Recurrences that are read -/

namespace Recurrence

/-- A recurrence in normal form.  It defines a function of at least one variable, all of them
distinct and without shifts.  Its sum is at most one constant and, behind it, calls of this function
at these variables, no two with equal shifts; no coefficient is about zero. -/
structure IsNormal (r : Recurrence Float) : Prop where
  nonempty : r.parameters ≠ []
  distinct : r.parameters.Nodup
  coefficient : r.signature.coefficient = 1.0
  shifts : r.signature.shifts = r.parameters.map fun _ => 0.0
  calls : ∀ c ∈ r.calls, c.function = r.function ∧ c.parameters = r.parameters ∧
    c.shifts.length = r.parameters.length
  layout : ∃ c : Option Float, r.terms = c.toList.map .constant ++ r.calls.map .call
  unlike : r.calls.Pairwise fun c d => (c.shifts == d.shifts) = false
  counts : ∀ t ∈ r.terms, (1e-12 : Float) < Scalar.abs t.coefficient

/-- **Every text that is read denotes a recurrence in normal form.** -/
theorem isNormal_of_parse {text : String} {r : Recurrence Float} (h : parse text = .ok r) :
    r.IsNormal := by
  obtain ⟨-, -, e, -, -, rfl, hchecked⟩ := exists_scoped_of_parse h
  have hterms : e.recurrence.terms = Term.collect e.right.terms := rfl
  have hcalls : e.recurrence.calls = Term.calls (Term.collect e.right.terms) := rfl
  refine ⟨List.cons_ne_nil _ _, hchecked.rules.distinct, rfl, rfl, fun c hc => ?_, ?_, ?_,
    fun t ht => ?_⟩
  · obtain ⟨hfunction, hparameters⟩ := hchecked.rules.calls c hc
    have hlength := (Call.checked_eq_ok_iff.1 (hchecked.calls c hc)).1
    exact ⟨hfunction, hparameters, by rw [← hlength, hparameters]⟩
  · exact Term.collect_eq_append e.right.terms
  · rw [hcalls, Term.calls_collect]
    exact (Call.pairwise_shifts_merge _).filter _
  · exact of_decide_eq_true (Term.counts_of_mem_collect (hterms ▸ ht))

/-- Of six summands two are left: the constants are added up, and the terms in `n-1` cancel. -/
theorem isNormal_of_cancelling_summands :
    ∃ r, parse "D(m, n) = 2 + D(m-1, n) + 3*D(m, n-1) - 1 + D(m-1, n) - 3*D(m, n-1)" = .ok r ∧
      r.terms.length = 2 ∧ r.IsNormal := by
  have hlength : ((parse "D(m, n) = 2 + D(m-1, n) + 3*D(m, n-1) - 1 + D(m-1, n) - 3*D(m, n-1)").map
      fun r => r.terms.length).toOption = some 2 := by decide +kernel
  generalize hread : parse _ = result at hlength ⊢
  cases result with
  | error e => exact absurd hlength.symm (Option.some_ne_none 2)
  | ok r => exact ⟨r, rfl, Option.some.inj hlength, isNormal_of_parse hread⟩

end Recurrence

end GrowthOrder
