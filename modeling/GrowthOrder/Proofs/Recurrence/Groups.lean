import GrowthOrder.Proofs.Recurrence.LikeTerms

/-!
# GrowthOrder.Proofs.Recurrence.Groups

A collected sum, group by group: the constants, and then the calls at each vector of shifts.  Where
no shift is a NaN, the calls of a group are those with equal shifts.

* `Call.merge_cons` — the first call takes the coefficients of all that are like it.
* `Call.merge_eq_grouped` — merged calls are one call for each vector of shifts.
* `Term.collect_eq_grouped` — so a collected sum is the sum of its groups.
-/

namespace GrowthOrder

/-! ## Groups of calls -/

/-- The sum of some numbers from left to right; of none, zero. -/
def leftSum : List Float → Float
  | [] => 0.0
  | x :: xs => xs.foldl (· + ·) x

namespace Call

/-- **The first of some calls takes the coefficients of all that are like it,** and the others are
merged by themselves. -/
theorem merge_cons {α : Type} [Scalar α] (c : Call α) (cs : List (Call α)) :
    merge (c :: cs) =
      { c with coefficient := ((cs.filter (alike c)).map coefficient).foldl (· + ·) c.coefficient }
        :: merge (cs.filter fun d => !alike c d) := by
  suffices h : ∀ (x : α) (ds : List (Call α)),
      cs.foldl (fun ds d => d.addTo ds) ({ c with coefficient := x } :: ds) =
        { c with coefficient := ((cs.filter (alike c)).map coefficient).foldl (· + ·) x }
          :: (cs.filter fun d => !alike c d).foldl (fun ds d => d.addTo ds) ds from
    h c.coefficient []
  induction cs with
  | nil => exact fun x ds => rfl
  | cons d cs ih =>
      intro x ds
      -- the coefficient of `c` has no part in what is like it
      have halike : alike { c with coefficient := x } d = alike c d := rfl
      rw [List.foldl_cons, addTo, halike]
      cases hd : alike c d with
      | true =>
          rw [if_pos rfl, ih, List.filter_cons_of_pos hd, List.map_cons, List.foldl_cons,
            List.filter_cons_of_neg (by simp [hd])]
      | false =>
          rw [if_neg Bool.false_ne_true, ih, List.filter_cons_of_neg (by simp [hd]),
            List.filter_cons_of_pos (by simp [hd]), List.foldl_cons]

/-- Whether two calls have equal shifts. -/
def equalShifts (c d : Call Float) : Bool :=
  c.shifts == d.shifts

/-- A call with the sum of the coefficients of all calls at its shifts. -/
def total (cs : List (Call Float)) (c : Call Float) : Call Float :=
  { c with coefficient := leftSum ((cs.filter (equalShifts c)).map coefficient) }

/-- One call for each vector of shifts, the first that has it, with the sum of the coefficients of
all that have it. -/
def grouped (cs : List (Call Float)) : List (Call Float) :=
  (cs.eraseDupsBy equalShifts).map (total cs)

/-- On shifts without a NaN, to be equal is to be alike. -/
theorem equalShifts_eq_alike {c : Call Float} (h : ∀ s ∈ c.shifts, s.isNaN = false)
    (d : Call Float) : equalShifts c d = alike c d := by
  rw [Bool.eq_iff_iff, equalShifts, ← key_eq_iff h, alike_iff]

/-- Calls at the shifts of a call that is not like `c` are not like `c`. -/
theorem filter_not_alike {c d : Call Float} (hd : ∀ s ∈ d.shifts, s.isNaN = false)
    (hcd : alike c d = false) (cs : List (Call Float)) :
    (cs.filter fun b => !alike c b).filter (equalShifts d) = (c :: cs).filter (equalShifts d) := by
  have hkey : key c.shifts ≠ key d.shifts := fun h => by simp [(alike_iff c d).2 h] at hcd
  have hc : ¬equalShifts d c = true := by
    rw [equalShifts_eq_alike hd, alike_iff]
    exact hkey.symm
  rw [List.filter_cons_of_neg hc, List.filter_filter]
  refine List.filter_congr fun b _ => ?_
  rw [Bool.and_eq_left_iff_imp, equalShifts_eq_alike hd, alike_iff, Bool.not_eq_true',
    ← Bool.not_eq_true, alike_iff]
  exact fun hb hcb => hkey (hcb.trans hb.symm)

/-- Merging groups the calls, where the coefficients may be summed over any calls that have the same
at each of these shifts. -/
theorem merge_eq_map_total {all cs : List (Call Float)}
    (h : ∀ c ∈ cs, ∀ s ∈ c.shifts, s.isNaN = false)
    (hall : ∀ c ∈ cs, all.filter (equalShifts c) = cs.filter (equalShifts c)) :
    merge cs = (cs.eraseDupsBy equalShifts).map (total all) := by
  -- what the first call leaves over is no tail of the list, so the induction is on the length
  induction hn : cs.length using Nat.strongRecOn generalizing cs with
  | ind n ih =>
    cases cs with
    | nil => rfl
    | cons c cs =>
      obtain ⟨hc, hcs⟩ := List.forall_mem_cons.1 h
      have hhead : total all c =
          { c with coefficient :=
              ((cs.filter (alike c)).map coefficient).foldl (· + ·) c.coefficient } := by
        have hself : equalShifts c c = true := by rw [equalShifts_eq_alike hc, alike_iff]
        rw [total, hall c List.mem_cons_self, List.filter_cons_of_pos hself,
          List.filter_congr fun d _ => equalShifts_eq_alike hc d]
        rfl
      have hothers : (cs.filter fun d => equalShifts d c = false) =
          cs.filter fun d => !alike c d := by
        refine List.filter_congr fun d hd => ?_
        rw [equalShifts_eq_alike (hcs d hd), Bool.eq_iff_iff, decide_eq_true_iff,
          Bool.not_eq_true', ← Bool.not_eq_true, ← Bool.not_eq_true, alike_iff, alike_iff, eq_comm]
      rw [merge_cons, List.eraseDupsBy_cons, hothers, List.map_cons, hhead]
      refine congrArg _ (ih _ ?_ (fun d hd => hcs d (List.mem_filter.1 hd).1) (fun d hd => ?_) rfl)
      · rw [← hn]
        exact Nat.lt_succ_of_le (List.length_filter_le _ _)
      · obtain ⟨hmem, hnot⟩ := List.mem_filter.1 hd
        rw [hall d (List.mem_cons_of_mem c hmem),
          filter_not_alike (hcs d hmem) (by simpa using hnot)]

/-- **Merged calls are one call for each vector of shifts.** -/
theorem merge_eq_grouped {cs : List (Call Float)}
    (h : ∀ c ∈ cs, ∀ s ∈ c.shifts, s.isNaN = false) : merge cs = grouped cs :=
  merge_eq_map_total h fun _ _ => rfl

end Call

/-! ## Groups of terms -/

namespace Term

/-- Whether the magnitude of a number is above `1e-12`. -/
def significant (x : Float) : Bool :=
  decide (1e-12 < x.abs)

theorem counts_eq_significant (x : Float) : counts x = significant x := by
  rw [counts, significant, Binary64.abs_eq, cancellation]

/-- The sum of the constants from left to right, then the groups of the calls, as far as they are
significant. -/
def grouped (ts : List (Term Float)) : List (Term Float) :=
  (if significant ((ts.filterMap constant?).foldl (· + ·) 0.0) then
      [constant ((ts.filterMap constant?).foldl (· + ·) 0.0)] else [])
    ++ ((Call.grouped (calls ts)).filter fun c => significant c.coefficient).map call

theorem collect_eq_grouped {ts : List (Term Float)}
    (h : ∀ c ∈ calls ts, ∀ s ∈ c.shifts, s.isNaN = false) : collect ts = grouped ts := by
  simp only [collect, counts_eq_significant, constantSum, Call.merge_eq_grouped h, grouped]

end Term

end GrowthOrder
