import GrowthOrder.Proofs.Binary64.Order
import GrowthOrder.Proofs.Recurrence.Equality
import GrowthOrder.Recurrence.LikeTerms

/-!
# GrowthOrder.Proofs.Recurrence.LikeTerms

What collecting like terms does to a sum.  Each list of shifts has a key, the words of its numbers
with the minus signs of zeros taken off; calls are alike if they have one key.

* `calls_collect_parts` — it brings in no function, no variables and no shifts that were not there.
* `key_eq_iff` — shifts without a NaN have one key exactly if they are `==`.
* `Term.Same.collect` — sums that differ in the signs of zeros only are collected into such sums.
* `Call.pairwise_merge`, `Call.merge_of_pairwise` — merged calls are unlike, and such calls are left
  as they are.
-/

namespace GrowthOrder

section Parts

variable {α : Type} [Scalar α]

variable {P : String → List String → List α → Prop}

/-! ## Functions, variables and shifts -/

theorem Call.addTo_parts {c : Call α} (hc : P c.function c.parameters c.shifts) {ds : List (Call α)}
    (hds : ∀ d ∈ ds, P d.function d.parameters d.shifts) :
    ∀ d ∈ c.addTo ds, P d.function d.parameters d.shifts := by
  induction ds with
  | nil => simpa [addTo] using hc
  | cons d ds ih =>
      rw [List.forall_mem_cons] at hds
      rw [addTo]
      split
      · exact List.forall_mem_cons.2 ⟨hds.1, hds.2⟩
      · exact List.forall_mem_cons.2 ⟨hds.1, ih hds.2⟩

theorem Call.merge_parts {cs : List (Call α)} (hcs : ∀ c ∈ cs, P c.function c.parameters c.shifts) :
    ∀ d ∈ merge cs, P d.function d.parameters d.shifts := by
  suffices h : ∀ ds : List (Call α), (∀ d ∈ ds, P d.function d.parameters d.shifts) →
      ∀ d ∈ cs.foldl (fun ds c => c.addTo ds) ds, P d.function d.parameters d.shifts from
    h [] (by simp)
  induction cs with
  | nil => exact fun ds hds => hds
  | cons c cs ih =>
      rw [List.forall_mem_cons] at hcs
      exact fun ds hds => ih hcs.2 _ (addTo_parts hcs.1 hds)

/-- The calls of a collected sum are the merged calls that count. -/
theorem Term.calls_collect (ts : List (Term α)) :
    calls (collect ts) = (Call.merge (calls ts)).filter fun c => counts c.coefficient := by
  have hcalls (cs : List (Call α)) : (cs.map call).filterMap call? = cs := by
    induction cs with
    | nil => rfl
    | cons c cs ih => simp only [List.map_cons, List.filterMap_cons, call?, ih]
  rw [collect]
  conv_lhs => rw [calls, List.filterMap_append, hcalls]
  split <;> rfl

/-- **Collecting brings in no new function, no new variables and no new shifts.** -/
theorem Term.calls_collect_parts {ts : List (Term α)}
    (h : ∀ c ∈ calls ts, P c.function c.parameters c.shifts) :
    ∀ c ∈ calls (collect ts), P c.function c.parameters c.shifts := by
  intro c hc
  rw [calls_collect] at hc
  exact Call.merge_parts h c (List.mem_filter.1 hc).1

end Parts

/-! ## Keys of shifts -/

/-- The words of some shifts; both zeros have one word. -/
def key (shifts : List Float) : List UInt64 :=
  shifts.map fun s => (s + 0.0).toBits

/-- Numbers have one word after adding a positive zero exactly if they differ in the sign of a zero
at most. -/
theorem word_eq_iff (x y : Float) :
    (x + 0.0).toBits = (y + 0.0).toBits ↔ Binary64.Same x y := by
  rw [Float.toBits_inj]
  refine ⟨fun h => ?_, Binary64.Same.add_zero_eq⟩
  have hx : Binary64.Same x (x + 0.0) := (Binary64.same_add_zero x Binary64.isZero_zero).symm
  rw [h] at hx
  exact hx.trans (Binary64.same_add_zero y Binary64.isZero_zero)

theorem key_eq_iff_same {xs ys : List Float} :
    key xs = key ys ↔ List.Forall₂ Binary64.Same xs ys := by
  induction xs generalizing ys with
  | nil => cases ys <;> simp [key]
  | cons x xs ih =>
      cases ys with
      | nil => simp [key]
      | cons y ys =>
          rw [List.forall₂_cons, ← word_eq_iff, ← ih]
          exact List.cons_eq_cons

/-- **Shifts without a NaN have one key exactly if they are `==`.** -/
theorem key_eq_iff {xs ys : List Float} (h : ∀ s ∈ xs, s.isNaN = false) :
    key xs = key ys ↔ (xs == ys) = true := by
  rw [key_eq_iff_same, list_beq_iff]
  refine ⟨fun hsame => ?_, List.Forall₂.imp fun x y hxy => ((Binary64.beq_iff x y).1 hxy).1⟩
  induction hsame with
  | nil => exact .nil
  | cons hxy _ ih =>
      rw [List.forall_mem_cons] at h
      exact .cons ((Binary64.beq_iff _ _).2 ⟨hxy, h.1⟩) (ih h.2)

namespace Call

/-- Shifts are the same up to the sign of a zero: there is one NaN only. -/
theorem sameShift_iff (x y : Float) : sameShift x y = true ↔ Binary64.Same x y := by
  rw [sameShift, Bool.or_eq_true, Bool.and_eq_true, Binary64.beq_iff]
  constructor
  · rintro (h | ⟨hx, hy⟩)
    · exact h.1
    · refine .inl (Binary64.parts_inj ?_)
      rw [(Binary64.isNaN_iff_parts x).1 hx, (Binary64.isNaN_iff_parts y).1 hy]
  · intro h
    cases hx : x.isNaN with
    | false => exact .inl ⟨h, rfl⟩
    | true => exact .inr ⟨hx, h.isNaN.symm.trans hx⟩

/-- Calls are alike exactly if their shifts have one key. -/
theorem alike_iff (c d : Call Float) : alike c d = true ↔ key c.shifts = key d.shifts := by
  rw [key_eq_iff_same, alike]
  generalize c.shifts = xs, d.shifts = ys
  induction xs generalizing ys with
  | nil => cases ys <;> simp [List.isEqv]
  | cons x xs ih =>
      cases ys with
      | nil => simp [List.isEqv]
      | cons y ys => rw [List.isEqv, Bool.and_eq_true, ih, sameShift_iff, List.forall₂_cons]

end Call

/-! ## Zeros of either sign -/

section Signs

open Binary64 (Same)

namespace Call

theorem Same.alike {c c' d d' : Call Float} (hc : c.Same c') (hd : d.Same d') :
    alike c d = alike c' d' := by
  rw [Bool.eq_iff_iff, alike_iff, alike_iff, key_eq_iff_same.2 hc.shifts,
    key_eq_iff_same.2 hd.shifts]

theorem Same.addTo {c c' : Call Float} (hc : c.Same c') {ds ds' : List (Call Float)}
    (hds : List.Forall₂ Call.Same ds ds') :
    List.Forall₂ Call.Same (c.addTo ds) (c'.addTo ds') := by
  induction hds with
  | nil => exact .cons hc .nil
  | cons hd hds ih =>
      rw [Call.addTo, Call.addTo, hd.alike hc]
      split
      · exact .cons ⟨hd.coefficient.add hc.coefficient, hd.function, hd.parameters, hd.shifts⟩ hds
      · exact .cons hd ih

theorem Same.merge {cs cs' : List (Call Float)} (h : List.Forall₂ Call.Same cs cs') :
    List.Forall₂ Call.Same (merge cs) (merge cs') := by
  suffices hfrom : ∀ ds ds', List.Forall₂ Call.Same ds ds' →
      List.Forall₂ Call.Same (cs.foldl (fun ds c => c.addTo ds) ds)
        (cs'.foldl (fun ds c => c.addTo ds) ds') from
    hfrom [] [] .nil
  induction h with
  | nil => exact fun ds ds' hds => hds
  | cons hc _ ih => exact fun ds ds' hds => ih _ _ (hc.addTo hds)

end Call

namespace Term

/-- Whether a coefficient counts does not depend on the sign of zero. -/
theorem counts_congr {x y : Float} (h : Binary64.Same x y) : counts x = counts y := by
  rw [counts, counts, h.abs]

theorem Same.calls {ts us : List (Term Float)} (h : List.Forall₂ Term.Same ts us) :
    List.Forall₂ Call.Same (calls ts) (calls us) := by
  induction h with
  | nil => exact .nil
  | cons h _ ih =>
      cases h with
      | constant h => exact ih
      | call h => exact .cons h ih

theorem Same.constantSum {ts us : List (Term Float)} (h : List.Forall₂ Term.Same ts us) :
    Binary64.Same (constantSum ts) (constantSum us) := by
  suffices hfrom : ∀ x y, Binary64.Same x y →
      Binary64.Same ((ts.filterMap constant?).foldl (· + ·) x)
        ((us.filterMap constant?).foldl (· + ·) y) from
    hfrom _ _ (.refl _)
  induction h with
  | nil => exact fun x y hxy => hxy
  | cons h _ ih =>
      cases h with
      | constant h => exact fun x y hxy => ih _ _ (hxy.add h)
      | call h => exact ih

/-- **Sums that differ in the signs of zeros only are collected into such sums.** -/
theorem Same.collect {ts us : List (Term Float)} (h : List.Forall₂ Term.Same ts us) :
    List.Forall₂ Term.Same (collect ts) (collect us) := by
  have hsum := Same.constantSum h
  have hcalls {cs ds : List (Call Float)} (h : List.Forall₂ Call.Same cs ds) :
      List.Forall₂ Term.Same ((cs.filter fun c => counts c.coefficient).map Term.call)
        ((ds.filter fun c => counts c.coefficient).map Term.call) := by
    induction h with
    | nil => exact .nil
    | cons h _ ih =>
        rw [List.filter_cons, List.filter_cons, counts_congr h.coefficient]
        split
        · exact .cons (.call h) ih
        · exact ih
  rw [Term.collect, Term.collect, counts_congr hsum]
  refine List.rel_append ?_ (hcalls (Call.Same.merge (Same.calls h)))
  split
  · exact .cons (.constant hsum) .nil
  · exact .nil

end Term

end Signs

/-! ## Collected sums -/

section Again

namespace Call

variable {α : Type} [Scalar α]

/-- A call that is like none of some calls is added at their end. -/
theorem addTo_of_not_alike {c : Call α} {ds : List (Call α)}
    (h : ∀ d ∈ ds, alike d c = false) : c.addTo ds = ds ++ [c] := by
  induction ds with
  | nil => rfl
  | cons d ds ih =>
      rw [List.forall_mem_cons] at h
      rw [addTo, h.1, if_neg Bool.false_ne_true, ih h.2, List.cons_append]

/-- Adding a call to calls that are pairwise unlike leaves them so. -/
theorem pairwise_addTo (c : Call α) {ds : List (Call α)}
    (h : ds.Pairwise fun d d' => alike d d' = false) :
    (c.addTo ds).Pairwise fun d d' => alike d d' = false := by
  induction ds with
  | nil => exact List.pairwise_singleton _ c
  | cons d ds ih =>
      obtain ⟨hhead, htail⟩ := List.pairwise_cons.1 h
      rw [addTo]
      split
      · exact List.pairwise_cons.2 ⟨hhead, htail⟩
      · next hnot =>
        refine List.pairwise_cons.2 ⟨?_, ih htail⟩
        -- whether calls are alike depends on their shifts alone
        exact addTo_parts (P := fun _ _ ss => d.shifts.isEqv ss sameShift = false)
          ((Bool.not_eq_true _).mp hnot) hhead

theorem pairwise_merge (cs : List (Call α)) :
    (merge cs).Pairwise fun d d' => alike d d' = false := by
  suffices h : ∀ ds : List (Call α), (ds.Pairwise fun d d' => alike d d' = false) →
      (cs.foldl (fun ds c => c.addTo ds) ds).Pairwise fun d d' => alike d d' = false from
    h [] List.Pairwise.nil
  induction cs with
  | nil => exact fun ds hds => hds
  | cons c cs ih => exact fun ds hds => ih _ (pairwise_addTo c hds)

/-- Merging calls that are pairwise unlike leaves them as they are. -/
theorem merge_of_pairwise {cs : List (Call α)}
    (h : cs.Pairwise fun d d' => alike d d' = false) : merge cs = cs := by
  suffices hfrom : ∀ ds : List (Call α), ((ds ++ cs).Pairwise fun d d' => alike d d' = false) →
      cs.foldl (fun ds c => c.addTo ds) ds = ds ++ cs from
    hfrom [] h
  clear h
  induction cs with
  | nil => exact fun ds _ => (List.append_nil ds).symm
  | cons c cs ih =>
      intro ds hds
      have hc : c.addTo ds = ds ++ [c] :=
        addTo_of_not_alike fun d hd => (List.pairwise_append.1 hds).2.2 d hd c List.mem_cons_self
      rw [List.foldl_cons, hc, ih _ (by simpa using hds), List.append_assoc, List.singleton_append]

end Call

end Again

end GrowthOrder
