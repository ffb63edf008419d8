import GrowthOrder.Proofs.Binary64.Order
import GrowthOrder.Proofs.Search.Brent

/-!
# GrowthOrder.Proofs.Search.Certificate

What the outcomes of Brent's method tell about binary64 numbers, for any function, any ends and any
options; nothing is assumed of the values, which may be infinite or no numbers.

A root comes with a certificate: it was evaluated, and it is a zero or has a point of the opposite
sign nearby that was evaluated too.  That the iterations are used up tells less.  An iteration tests
the point of the one before, so nobody tests the last point, and it may be a zero.
-/

namespace GrowthOrder.Brent

section

variable {α : Type} [Scalar α] {f : α → α} {o : Options α} {a b : α}

/-! ## Refused signs -/

/-- The signs at the ends are refused before anything is recorded, and for no other reason than that
they are the same and belong to no zeros. -/
theorem search_sameSign_iff {c d u v : α} :
    (search f a b o).result = .error (.sameSign c d u v) ↔
      (c = a ∧ d = b ∧ u = f a ∧ v = f b) ∧ (search f a b o).events = [] ∧
        (sample f a).isZero = false ∧ (sample f b).isZero = false ∧
        opposite (sample f a) (sample f b) = false := by
  cases course f a b o with
  | lower ha h => simp [h, ha]
  | upper ha hb h => simp [h, hb]
  | refused ha hb hsame h =>
      simp only [h, ha, hb, hsame, Except.error.injEq, SearchFault.sameSign.injEq, and_true,
        eq_comm]
  | run ha hb hopposite steps h =>
      rw [h.result]
      split <;> simp [hopposite]

/-! ## Points in the order of their evaluation -/

/-- Each current point has the value there. -/
theorem sample_current_after (i : Nat) :
    sample f ((start f a b).after f o i).current.x = ((start f a b).after f o i).current := by
  cases i with
  | zero => rfl
  | succ i => rw [State.after_succ, State.current_turn]; rfl

section

variable {remaining first steps : Nat}

theorem getLast?_evaluated (h : IsRun f o (start f a b) remaining first steps (search f a b o)) :
    (evaluated f a b o).getLast? = some ((start f a b).after f o steps).current.x := by
  rw [evaluated_eq h, List.range_succ, List.map_append, ← List.cons_append]
  exact List.getLast?_append_cons _ _ _

theorem dropLast_evaluated (h : IsRun f o (start f a b) remaining first steps (search f a b o)) :
    (evaluated f a b o).dropLast =
      a :: (List.range steps).map fun i => ((start f a b).after f o i).current.x := by
  rw [evaluated_eq h, List.range_succ, List.map_append, ← List.cons_append]
  exact List.dropLast_concat

end

/-! ## Zeros -/

section

variable (hzero : ∀ x y : α, (x == (0.0 : α)) = true → ¬Scalar.abs y < Scalar.abs x)

include hzero

/-- At a zero an iteration stops, and returns it. -/
theorem State.isDone_of_isZero {s : State α} (h : s.current.isZero = true) :
    s.oriented.isDone o = true ∧ s.oriented.current = s.current := by
  rw [oriented, orient_rebracket_of_isZero hzero h]
  exact ⟨by simp [isDone, h], rfl⟩

/-- All points but the last were tested. -/
theorem isZero_of_mem_dropLast {steps : Nat} (ha : (sample f a).isZero = false)
    (h : IsRun f o (start f a b) o.iterations 1 steps (search f a b o)) {p : α}
    (hp : p ∈ (evaluated f a b o).dropLast) : (sample f p).isZero = false := by
  rw [dropLast_evaluated h, List.mem_cons, List.mem_map] at hp
  obtain rfl | ⟨i, hi, rfl⟩ := hp
  · exact ha
  · rw [sample_current_after]
    exact State.isZero_of_isDone hzero (h.goes_on i (List.mem_range.1 hi))

/-- If the last point is a zero, one more iteration finds it. -/
theorem search_one_more {steps : Nat} (ha : (sample f a).isZero = false)
    (hb : (sample f b).isZero = false) (hopposite : opposite (sample f a) (sample f b) = true)
    (h : IsRun f o (start f a b) o.iterations 1 steps (search f a b o))
    (hlast : (sample f ((start f a b).after f o steps).current.x).isZero = true) :
    (search f a b { o with iterations := o.iterations + 1 }).result =
      .ok ((start f a b).after f o steps).current.x := by
  rw [sample_current_after] at hlast
  have hdone := State.isDone_of_isZero (o := o) hzero hlast
  have hlt : steps < o.iterations + 1 := Nat.lt_succ_of_le h.steps_le
  -- the number of iterations is no part of a turn
  have hafter (i : Nat) : (start f a b).after f { o with iterations := o.iterations + 1 } i =
      (start f a b).after f o i := rfl
  obtain ⟨more, hmore⟩ := exists_isRun_search
    (o := { o with iterations := o.iterations + 1 }) ha hb hopposite
  obtain rfl : more = steps := hmore.steps_eq hlt h.goes_on hdone.1
  rw [hmore.result, if_pos hlt, hafter, hdone.2]

end

end

/-! ## Outcomes -/

section

variable (f : Float → Float) (a b : Float) (o : Options Float)

/-- **A root is certified by a change of sign.**

1. A result was evaluated, and it is a zero, or another point that was evaluated has a value of the
   opposite sign and lies within the tolerance.
2. There are no more events than iterations, they are numbered from 1 on, and each has the value at
   its point.
3. The signs at the ends are refused exactly if both values are nonzero and have the same sign, and
   nothing has been recorded then. -/
theorem search_signChange :
    (∀ x, (search f a b o).result = .ok x →
      x ∈ evaluated f a b o ∧
        ((f x == 0.0) = true ∨
          ∃ y ∈ evaluated f a b o, y ≠ x ∧
            Scalar.isNegative (f y) ≠ Scalar.isNegative (f x) ∧
            Scalar.abs ((y - x) / 2.0) < (o.absolute + o.relative * Scalar.abs x) / 2.0)) ∧
    ((search f a b o).events.length ≤ o.iterations ∧
      ∀ i (hi : i < (search f a b o).events.length), ∃ x step,
        (search f a b o).events[i] = .brent (i + 1) x (f x) step) ∧
    (∀ c d u v, (search f a b o).result = .error (.sameSign c d u v) ↔
      (c = a ∧ d = b ∧ u = f a ∧ v = f b) ∧ (search f a b o).events = [] ∧
        (f a == 0.0) = false ∧ (f b == 0.0) = false ∧
        Scalar.isNegative (f a) = Scalar.isNegative (f b)) := by
  refine ⟨fun x hx => ?_, ?_, fun c d u v => ?_⟩
  · obtain ⟨hmem, hroot | ⟨y, hy, hopposite, hnear⟩⟩ := search_ok Binary64.not_abs_lt_of_isZero hx
    · exact ⟨hmem, .inl hroot⟩
    · have hsigns : Scalar.isNegative (f y) ≠ Scalar.isNegative (f x) :=
        (bne_iff_ne.1 hopposite).symm
      exact ⟨hmem, .inr ⟨y, hy, fun heq => hsigns (by rw [heq]), hsigns, hnear⟩⟩
  · obtain ⟨steps, hsteps, hevents⟩ := exists_events f a b o
    rw [hevents]
    refine ⟨by simpa using hsteps, fun i hi => ?_⟩
    rw [List.getElem_map, List.getElem_range]
    exact ⟨_, _, rfl⟩
  · rw [search_sameSign_iff, opposite, bne_eq_false_iff_eq]
    rfl

/-- **A search that uses up its iterations has not come to a zero before its last point.**  Whether
it came to one at all is a matter of that point, which one more iteration would return. -/
theorem search_exhausted {n : Nat} {x : Float}
    (hx : (search f a b o).result = .error (.exhausted n x)) :
    n = o.iterations ∧ (search f a b o).events.length = o.iterations ∧
    (evaluated f a b o).getLast? = some x ∧
    (∀ p ∈ (evaluated f a b o).dropLast, (f p == 0.0) = false) ∧
    ((∀ p ∈ evaluated f a b o, (f p == 0.0) = false) ↔ (f x == 0.0) = false) ∧
    ((f x == 0.0) = true →
      (search f a b { o with iterations := o.iterations + 1 }).result = .ok x) := by
  cases course f a b o with
  | lower ha h => simp [h] at hx
  | upper ha hb h => simp [h] at hx
  | refused ha hb hsame h => simp [h] at hx
  | run ha hb hopposite steps h =>
      rw [h.result] at hx
      split at hx
      · simp at hx
      next hsteps =>
      obtain ⟨rfl, rfl⟩ : o.iterations = n ∧ ((start f a b).after f o steps).current.x = x := by
        simpa using hx
      have hlast := getLast?_evaluated h
      have htested := fun p => isZero_of_mem_dropLast (p := p) Binary64.not_abs_lt_of_isZero ha h
      have hpoints := List.dropLast_append_getLast? _ hlast
      refine ⟨rfl, ?_, hlast, htested, ⟨fun hall => hall _ (List.mem_of_getLast? hlast),
        fun hvalue p hp => ?_⟩, search_one_more Binary64.not_abs_lt_of_isZero ha hb hopposite h⟩
      · rw [h.events, List.length_map, List.length_range]
        exact Nat.le_antisymm h.steps_le (Nat.le_of_not_lt hsteps)
      · -- an evaluated point was tested by the next iteration, or it is the last one
        rw [← hpoints, List.mem_append, List.mem_singleton] at hp
        obtain hp | rfl := hp
        · exact htested p hp
        · exact hvalue

/-- The only iteration between -1 and 1 leads to the zero of the identity. -/
theorem search_exhausted_at_zero :
    (search id (-1.0) 1.0 { Options.standard with iterations := 1 }).result =
        .error (.exhausted 1 (0.0 : Float)) ∧
      (search id (-1.0) 1.0 { Options.standard with iterations := 2 }).result =
        .ok (0.0 : Float) := by
  have hexhausted : (search id (-1.0) 1.0 { Options.standard with iterations := 1 }).result =
      .error (.exhausted 1 (0.0 : Float)) := by
    decide +kernel
  exact ⟨hexhausted, (search_exhausted _ _ _ _ hexhausted).2.2.2.2.2 (by decide +kernel)⟩

/-- So it is not the case that a search uses up its iterations only if it came to no zero. -/
theorem exists_exhausted_at_zero :
    ¬∀ (f : Float → Float) (a b : Float) (o : Options Float), 1 ≤ o.iterations → ∀ n x,
      (search f a b o).result = .error (.exhausted n x) →
        ∀ p ∈ evaluated f a b o, (f p == 0.0) = false := by
  intro h
  have hpoints : evaluated id (-1.0) 1.0 { Options.standard with iterations := 1 } =
      [-1.0, 1.0, (0.0 : Float)] := by
    decide +kernel
  have hnonzero := h id (-1.0) 1.0 { Options.standard with iterations := 1 } (Nat.le_refl 1) 1 0.0
    (by decide +kernel) 0.0 (by simp [hpoints])
  exact absurd hnonzero (by decide +kernel)

end

end GrowthOrder.Brent
