import GrowthOrder.Proofs.Exact
import GrowthOrder.Proofs.Recurrence.NormalForm
import GrowthOrder.Proofs.Recurrence.Slots

/-!
# GrowthOrder.Proofs.Recurrence.Collected

Sums with nothing left to collect.  Collecting like terms produces such a sum, and leaves such a sum
as it is, so that a second pass changes nothing at all, not even the sign of a zero.

* `Term.isCollected_collect` — a collected sum has nothing left to collect.
* `Term.IsCollected.collect_eq` — a sum with nothing to collect is left as it is.
* `Term.collect_idempotent` — so collecting twice is collecting once.
-/

namespace GrowthOrder

namespace Term

section Collected

variable {α : Type} [Scalar α] {ts : List (Term α)}

/-- A sum with nothing to collect: at most one constant, in front of the calls, no two calls with
the same shifts, and every coefficient counts. -/
structure IsCollected (ts : List (Term α)) : Prop where
  layout : ∃ c : Option α, ts = c.toList.map constant ++ (calls ts).map call
  unlike : (calls ts).Pairwise fun c d => Call.alike c d = false
  counts : ∀ t ∈ ts, counts t.coefficient = true

/-- **A collected sum has nothing left to collect.** -/
theorem isCollected_collect (ts : List (Term α)) : IsCollected (collect ts) where
  layout := collect_eq_append ts
  unlike := by
    rw [calls_collect]
    exact (Call.pairwise_merge _).filter _
  counts _ := counts_of_mem_collect

/-- The calls of a sum with nothing to collect are what collecting leaves of them. -/
theorem IsCollected.filter_merge (h : IsCollected ts) :
    (Call.merge (calls ts)).filter (fun c => Term.counts c.coefficient) = calls ts := by
  rw [Call.merge_of_pairwise h.unlike, List.filter_eq_self]
  intro c hc
  obtain ⟨t, ht, hcall⟩ := List.mem_filterMap.1 hc
  cases t with
  | constant x => exact absurd hcall (by simp [call?])
  | call d =>
      obtain rfl := Option.some.inj hcall
      exact h.counts _ ht

/-- **A sum with nothing to collect is left as it is,** where adding to zero changes no number that
counts.  Of the equality of shifts nothing is assumed. -/
theorem IsCollected.collect_eq (h : IsCollected ts) (hzero : Term.counts (0.0 : α) = false)
    (hadd : ∀ x : α, Term.counts x = true → 0.0 + x = x) : collect ts = ts := by
  obtain ⟨c, hlayout⟩ := h.layout
  have hconstants : ts.filterMap constant? = c.toList := by
    rw [hlayout, List.filterMap_append, List.filterMap_map, List.filterMap_map]
    simp [Function.comp_def, constant?]
  have hfront : (if Term.counts (constantSum ts) = true then [constant (constantSum ts)] else []) =
      c.toList.map constant := by
    rw [constantSum, hconstants]
    cases c with
    | none => exact if_neg (by simp [hzero])
    | some x =>
        have hx : Term.counts x = true := by
          refine h.counts (constant x) ?_
          rw [hlayout]
          exact List.mem_append_left _ List.mem_cons_self
        simp only [Option.toList_some, List.foldl_cons, List.foldl_nil, hadd x hx, hx, if_true,
          List.map_cons, List.map_nil]
  rw [collect, h.filter_merge, hfront, ← hlayout]

end Collected

/-! ## Binary64 -/

theorem counts_zero : counts (0.0 : Float) = false := by
  decide +kernel

/-- What counts is no zero, so adding it to zero gives it back. -/
theorem zero_add_of_counts {x : Float} (h : counts x = true) : 0.0 + x = x := by
  obtain heq | ⟨-, hx⟩ : Binary64.Same (0.0 + x) x := by
    rw [Binary64.add_comm]
    exact Binary64.same_add_zero x Binary64.isZero_zero
  · exact heq
  · rw [counts_congr (.inr ⟨hx, Binary64.isZero_zero⟩), counts_zero] at h
    exact absurd h Bool.false_ne_true

theorem collect_eq_self_iff (ts : List (Term Float)) : collect ts = ts ↔ IsCollected ts :=
  ⟨fun h => h ▸ isCollected_collect ts,
    fun h => h.collect_eq counts_zero fun _ => zero_add_of_counts⟩

/-- A second pass changes nothing. -/
theorem collect_collect (ts : List (Term Float)) : collect (collect ts) = collect ts :=
  (collect_eq_self_iff _).2 (isCollected_collect ts)

/-- **Collecting twice is collecting once,** for all terms, their shifts and coefficients infinite
or no numbers at all: what is collected has nothing left to collect, and such sums are the ones that
collecting leaves as they are, in every bit.  So it is with the index.  The same goes for any other
numbers where adding to zero changes nothing that counts, whatever the equality of shifts, so it
does not matter which NaNs are told apart. -/
theorem collect_idempotent :
    (∀ ts : List (Term Float),
      collect (collect ts) = collect ts ∧ IsCollected (collect ts) ∧
        (collect ts = ts ↔ IsCollected ts) ∧
        (Slots.collect ts).bind Slots.collect = Slots.collect ts) ∧
    ∀ (α : Type) [Scalar α], counts (0.0 : α) = false →
      (∀ x : α, counts x = true → 0.0 + x = x) →
        ∀ ts : List (Term α), collect (collect ts) = collect ts := by
  refine ⟨fun ts => ⟨collect_collect ts, isCollected_collect ts, collect_eq_self_iff ts, ?_⟩,
    fun α _ hzero hadd ts => (isCollected_collect ts).collect_eq hzero hadd⟩
  rw [Slots.collect_eq, Option.bind_some, Slots.collect_eq, collect_collect]

/-- Of seven summands three are left: two calls at a NaN are one, two at zeros of either sign are
one, a call at an infinity stays, and the constants cancel.  Fractions are other numbers. -/
theorem collect_idempotent_unbounded :
    let ts : List (Term Float) :=
      [.call ⟨2.0, "T", ["n"], [0.0 / 0.0]⟩, .constant 0.1, .call ⟨1.0, "T", ["n"], [-0.0]⟩,
        .call ⟨-0.5, "S", ["n"], [1.0 / 0.0]⟩, .constant (-0.1), .call ⟨1.0, "T", ["n"], [0.0]⟩,
        .call ⟨1.0 / 0.0, "U", ["m"], [0.0 / 0.0]⟩]
    let us : List (Term (Exact ℚ)) := [.call ⟨2.0, "T", ["n"], [-1.0]⟩, .constant 0.1]
    ((collect ts).length = 3 ∧ collect (collect ts) = collect ts) ∧
      counts (0.0 : Exact ℚ) = false ∧ (∀ x : Exact ℚ, counts x = true → 0.0 + x = x) ∧
      collect (collect us) = collect us := by
  intro ts us
  have hzero : counts (0.0 : Exact ℚ) = false := by decide +kernel
  have hadd (x : Exact ℚ) (_ : counts x = true) : 0.0 + x = x := by
    have hval : ((0.0 : Exact ℚ) + x).val = x.val := by norm_num
    exact Exact.ext hval
  exact ⟨⟨by decide +kernel, (collect_idempotent.1 ts).1⟩, hzero, hadd,
    collect_idempotent.2 (Exact ℚ) hzero hadd us⟩

end Term

end GrowthOrder
