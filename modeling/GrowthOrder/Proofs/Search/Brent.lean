import GrowthOrder.Proofs.Search.Run

/-!
# GrowthOrder.Proofs.Search.Brent

What a result of Brent's method says: it is a root, or a point close to it has the opposite sign.

Before an iteration a state is `Pending`: either the last step crossed the root, or the blocking
point still lies across from the point before it.  The first half of the iteration makes it
`Enclosed`, with the current and the blocking point on different sides; the second half, which takes
the step, leaves a pending state behind.
-/

namespace GrowthOrder.Brent

variable {α : Type} [Scalar α] {f : α → α} {o : Options α}

/-! ## Opposite signs -/

theorem opposite_comm (p q : Sample α) : opposite p q = opposite q p :=
  bne_comm

/-- Of three points, the last lies across from the second if it does so from the first and the
first two are on one side. -/
theorem opposite_of_same {p q r : Sample α} (h : opposite p r = true) (hq : opposite p q = false) :
    opposite q r = true := by
  unfold opposite at h hq ⊢
  rw [bne_eq_false_iff_eq] at hq
  rw [← hq, h]

/-- `x` is a root of `f`, or there is a point of the opposite sign within the tolerance. -/
def Certified (f : α → α) (o : Options α) (x : α) : Prop :=
  (sample f x).isZero = true ∨
    ∃ y, opposite (sample f x) (sample f y) = true ∧
      Scalar.abs ((y - x) / 2.0) < (o.absolute + o.relative * Scalar.abs x) / 2.0

namespace State

/-! ## The state between two iterations -/

/-- The values are those of `f`, and a sign change lies ahead. -/
structure Pending (f : α → α) (s : State α) : Prop where
  previous : s.previous = sample f s.previous.x
  current : s.current = sample f s.current.x
  nonzero : s.previous.isZero = false
  crossing : opposite s.previous s.current = true ∨
    (s.blocking = sample f s.blocking.x ∧ opposite s.previous s.blocking = true)

/-- The values are those of `f`, with a sign change between the current and the blocking point. -/
structure Enclosed (f : α → α) (s : State α) : Prop where
  current : s.current = sample f s.current.x
  blocking : s.blocking = sample f s.blocking.x
  opposite : opposite s.current s.blocking = true

theorem Pending.rebracket {s : State α} (h : s.Pending f) (hcurrent : s.current.isZero = false) :
    s.rebracket.Enclosed f := by
  cases hcrossed : Brent.opposite s.previous s.current with
  | true =>
      have hblocking := (rebracket_of_opposite h.nonzero hcurrent hcrossed).2
      constructor
      · rw [current_rebracket]; exact h.current
      · rw [hblocking]; exact h.previous
      · rw [current_rebracket, hblocking, opposite_comm]; exact hcrossed
  | false =>
      obtain hnow | ⟨hblocking, hacross⟩ := h.crossing
      · exact absurd hnow (by simp [hcrossed])
      rw [rebracket_of_same hcrossed]
      exact ⟨h.current, hblocking, opposite_of_same hacross hcrossed⟩

theorem Enclosed.orient {s : State α} (h : s.Enclosed f) : s.orient.Enclosed f := by
  by_cases hbetter : Scalar.abs s.blocking.value < Scalar.abs s.current.value
  · simp only [State.orient, hbetter, if_true]
    exact ⟨h.blocking, h.current, by rw [opposite_comm]; exact h.opposite⟩
  · simpa [State.orient, hbetter] using h

theorem Enclosed.advance {s : State α} (h : s.Enclosed f) (hdone : s.isDone o = false) :
    (s.advance f o).Pending f := by
  have hnonzero : s.current.isZero = false := (Bool.or_eq_false_iff.1 hdone).1
  constructor
  · exact h.current
  · rfl
  · exact hnonzero
  · rw [blocking_advance]
    exact .inr ⟨h.blocking, h.opposite⟩

end State

/-! ## Evaluated points -/

/-- The points at which a search evaluated the function: both ends, and those of its events. -/
def evaluated (f : α → α) (a b : α) (o : Options α) : List α :=
  a :: b :: (search f a b o).events.filterMap fun e => e.point?.map Prod.fst

/-- In a run these are the first end and the current points of all states. -/
theorem evaluated_eq {a b : α} {remaining first steps : Nat}
    (h : IsRun f o (start f a b) remaining first steps (search f a b o)) :
    evaluated f a b o =
      a :: (List.range (steps + 1)).map fun i => ((start f a b).after f o i).current.x := by
  have hpoint (i : Nat) (s : State α) :
      (s.event f o i).point?.map Prod.fst = some (s.turn f o).current.x := rfl
  simp only [evaluated, h.events, List.filterMap_map, Function.comp_def, hpoint,
    List.filterMap_eq_map', List.range_succ_eq_map, List.map_cons, List.map_map,
    Nat.succ_eq_add_one, State.after_succ]
  rfl

theorem current_mem_evaluated {a b : α} {remaining first steps : Nat}
    (h : IsRun f o (start f a b) remaining first steps (search f a b o)) {i : Nat}
    (hi : i ≤ steps) : ((start f a b).after f o i).current.x ∈ evaluated f a b o := by
  rw [evaluated_eq h]
  exact List.mem_cons_of_mem _ (List.mem_map_of_mem (List.mem_range.2 (Nat.lt_succ_of_le hi)))

namespace State

/-- The points that an iteration can go back to are among the given ones. -/
structure Among (points : List α) (s : State α) : Prop where
  previous : s.previous.x ∈ points
  current : s.current.x ∈ points
  blocking : Brent.opposite s.previous s.current = true ∨ s.blocking.x ∈ points

theorem Among.oriented {points : List α} {s : State α} (h : s.Among points) (hs : s.Pending f)
    (hcurrent : s.current.isZero = false) :
    s.oriented.current.x ∈ points ∧ s.oriented.blocking.x ∈ points := by
  have hrebracket : s.rebracket.current.x ∈ points ∧ s.rebracket.blocking.x ∈ points := by
    rw [current_rebracket]
    refine ⟨h.current, ?_⟩
    cases hcrossed : Brent.opposite s.previous s.current with
    | true =>
        rw [(rebracket_of_opposite hs.nonzero hcurrent hcrossed).2]
        exact h.previous
    | false =>
        rw [rebracket_of_same hcrossed]
        exact h.blocking.resolve_left (by simp [hcrossed])
  unfold State.oriented State.orient
  split
  · exact hrebracket.symm
  · exact hrebracket

end State

/-! ## The whole search -/

section

variable (hzero : ∀ x y : α, (x == (0.0 : α)) = true → ¬Scalar.abs y < Scalar.abs x)

include hzero

namespace State

variable {s : State α}

/-- At a root the first half of an iteration changes nothing. -/
theorem orient_rebracket_of_isZero (h : s.current.isZero = true) : s.rebracket.orient = s := by
  have hs : s.rebracket = s := by simp [State.rebracket, h]
  simp [hs, State.orient, hzero _ s.blocking.value h]

/-- A search that goes on has not come to a root. -/
theorem isZero_of_isDone (hdone : s.oriented.isDone o = false) : s.current.isZero = false := by
  rw [Bool.eq_false_iff]
  intro hcurrent
  rw [oriented, orient_rebracket_of_isZero hzero hcurrent] at hdone
  simp [isDone, hcurrent] at hdone

theorem Pending.turn (h : s.Pending f) (hdone : s.oriented.isDone o = false) :
    (s.turn f o).Pending f :=
  (h.rebracket (isZero_of_isDone hzero hdone)).orient.advance hdone

/-- If a pending state is done, its estimate is one of the points, and certified by another one. -/
theorem Pending.certified {points : List α} (h : s.Pending f) (hs : s.Among points)
    (hdone : s.oriented.isDone o = true) :
    s.oriented.current.x ∈ points ∧
      ((sample f s.oriented.current.x).isZero = true ∨
        ∃ y ∈ points, opposite (sample f s.oriented.current.x) (sample f y) = true ∧
          Scalar.abs ((y - s.oriented.current.x) / 2.0) <
            (o.absolute + o.relative * Scalar.abs s.oriented.current.x) / 2.0) := by
  cases hcurrent : s.current.isZero with
  | true =>
      rw [oriented, orient_rebracket_of_isZero hzero hcurrent, ← h.current]
      exact ⟨hs.current, .inl hcurrent⟩
  | false =>
      have henclosed : s.oriented.Enclosed f := (h.rebracket hcurrent).orient
      have hpoints := hs.oriented h hcurrent
      refine ⟨hpoints.1, ?_⟩
      rw [← henclosed.current]
      obtain hroot | hnear := Bool.or_eq_true_iff.1 hdone
      · exact .inl hroot
      · refine .inr ⟨_, hpoints.2, ?_, of_decide_eq_true hnear⟩
        rw [← henclosed.blocking]
        exact henclosed.opposite

end State

/-! A run from a pending state passes through pending states only. -/

section

variable {s : State α} {remaining first steps : Nat} {r : Recorded α (Except (SearchFault α) α)}

theorem IsRun.pending (h : IsRun f o s remaining first steps r) (hs : s.Pending f) {i : Nat}
    (hi : i ≤ steps) : (s.after f o i).Pending f := by
  induction i with
  | zero => exact hs
  | succ i ih =>
      rw [State.after_succ]
      exact (ih (Nat.le_of_succ_le hi)).turn hzero (h.goes_on i hi)

/-- It only goes back to points where it was. -/
theorem IsRun.among (h : IsRun f o s remaining first steps r) (hs : s.Pending f) {points : List α}
    (hpoints : s.Among points) (hcurrent : ∀ i ≤ steps, (s.after f o i).current.x ∈ points)
    {i : Nat} (hi : i ≤ steps) : (s.after f o i).Among points := by
  induction i with
  | zero => exact hpoints
  | succ i ih =>
      have hbefore := Nat.le_of_succ_le hi
      have hdone := h.goes_on i hi
      have horiented := (ih hbefore).oriented (h.pending hzero hs hbefore)
        (State.isZero_of_isDone hzero hdone)
      have hnext := hcurrent (i + 1) hi
      rw [State.after_succ] at hnext ⊢
      exact ⟨horiented.1, hnext, .inr (by simpa using horiented.2)⟩

end

/-- **A result is certified**: it was evaluated, and it is a root, or there is another evaluated
point of the opposite sign within the tolerance. -/
theorem search_ok {a b x : α} (hx : (search f a b o).result = .ok x) :
    x ∈ evaluated f a b o ∧
      ((sample f x).isZero = true ∨
        ∃ y ∈ evaluated f a b o, opposite (sample f x) (sample f y) = true ∧
          Scalar.abs ((y - x) / 2.0) < (o.absolute + o.relative * Scalar.abs x) / 2.0) := by
  cases course f a b o with
  | lower ha h =>
      obtain rfl : a = x := by simpa [h] using hx
      exact ⟨by simp [evaluated], .inl ha⟩
  | upper ha hb h =>
      obtain rfl : b = x := by simpa [h] using hx
      exact ⟨by simp [evaluated], .inl hb⟩
  | refused ha hb hsame h => simp [h] at hx
  | run ha hb hopposite steps h =>
      have hpending : (start f a b).Pending f := ⟨rfl, rfl, ha, .inl hopposite⟩
      have hamong : (start f a b).Among (evaluated f a b o) :=
        ⟨by simp [evaluated, start, sample], by simp [evaluated, start, sample], .inl hopposite⟩
      rw [h.result] at hx
      split at hx
      · next hlt =>
        obtain rfl := Except.ok.inj hx
        exact (h.pending hzero hpending (Nat.le_refl _)).certified hzero
          (h.among hzero hpending hamong (fun _ => current_mem_evaluated h) (Nat.le_refl _))
          (h.stops hlt)
      · simp at hx

theorem search_certified {a b x : α} (hx : (search f a b o).result = .ok x) : Certified f o x :=
  (search_ok hzero hx).2.imp_right fun ⟨y, _, hy⟩ => ⟨y, hy⟩

end

end GrowthOrder.Brent
