import GrowthOrder.Search.Brent
import Mathlib.Logic.Function.Iterate

/-!
# GrowthOrder.Proofs.Search.Run

The iterations of Brent's method as a sequence of states.  An iteration first puts the three points
in order (`State.oriented`), and unless it stops there it takes a step (`State.turn`).  The state
after some iterations is `State.after`, and `IsRun` says what a search records from it:

* it takes steps as long as it is not done, and not more than it may;
* it records the point that each step leads to, with the value there;
* it returns the estimate where it is done, and the last point where the iterations are used up.

`Course` adds what a search does before its first iteration.  Whatever is proved of searches goes
through these two, and by induction on the number of iterations.
-/

namespace GrowthOrder.Brent

variable {α : Type} [Scalar α] {f : α → α} {o : Options α}

namespace State

/-! ## Parts of an iteration -/

variable {s : State α}

@[simp]
theorem current_rebracket (s : State α) : s.rebracket.current = s.current := by
  unfold rebracket
  split <;> rfl

theorem blocking_rebracket (s : State α) :
    s.rebracket.blocking = s.previous ∨ s.rebracket.blocking = s.blocking := by
  unfold rebracket
  split
  · exact .inl rfl
  · exact .inr rfl

/-- The previous point takes over if the last step crossed the root. -/
theorem rebracket_of_opposite (hprevious : s.previous.isZero = false)
    (hcurrent : s.current.isZero = false) (h : opposite s.previous s.current = true) :
    s.rebracket.previous = s.previous ∧ s.rebracket.blocking = s.previous := by
  simp [rebracket, hprevious, hcurrent, h]

theorem rebracket_of_same (h : opposite s.previous s.current = false) : s.rebracket = s := by
  simp [rebracket, h]

/-- The choice of a step leaves the three points where they are. -/
theorem blocking_choose (s : State α) : (s.choose o).blocking = s.blocking := by
  unfold choose
  cases s.step o <;> rfl

@[simp]
theorem blocking_advance (s : State α) : (s.advance f o).blocking = s.blocking :=
  blocking_choose s

/-! ## Iterations one after the other -/

/-- The state in which an iteration decides whether to stop, and how to go on. -/
def oriented (s : State α) : State α :=
  s.rebracket.orient

/-- The state after an iteration that goes on. -/
def turn (f : α → α) (o : Options α) (s : State α) : State α :=
  s.oriented.advance f o

/-- The state after `n` iterations that go on. -/
def after (f : α → α) (o : Options α) (s : State α) (n : Nat) : State α :=
  (turn f o)^[n] s

@[simp]
theorem after_zero (s : State α) : s.after f o 0 = s :=
  rfl

theorem after_succ (s : State α) (n : Nat) : s.after f o (n + 1) = (s.after f o n).turn f o :=
  Function.iterate_succ_apply' _ _ _

/-- The first iteration may be counted apart. -/
theorem after_turn (s : State α) (n : Nat) : (s.turn f o).after f o n = s.after f o (n + 1) :=
  (Function.iterate_succ_apply _ _ _).symm

/-- The new point is the next one of the state that was put in order, and has the value there. -/
@[simp]
theorem current_turn (s : State α) : (s.turn f o).current = sample f (s.oriented.next o) :=
  rfl

@[simp]
theorem previous_turn (s : State α) : (s.turn f o).previous = s.oriented.current :=
  rfl

@[simp]
theorem blocking_turn (s : State α) : (s.turn f o).blocking = s.oriented.blocking :=
  blocking_choose _

/-- The event that the iteration from a state records. -/
def event (f : α → α) (o : Options α) (iteration : Nat) (s : State α) : Event α :=
  .brent iteration (s.oriented.next o) (f (s.oriented.next o)) (s.oriented.step o)

end State

/-! ## Iterations -/

/-- A record of `steps` iterations from `s` that go on, of which there may be `remaining`, the first
of them number `first`. -/
structure IsRun (f : α → α) (o : Options α) (s : State α) (remaining first steps : Nat)
    (r : Recorded α (Except (SearchFault α) α)) : Prop where
  steps_le : steps ≤ remaining
  goes_on : ∀ i < steps, (s.after f o i).oriented.isDone o = false
  stops : steps < remaining → (s.after f o steps).oriented.isDone o = true
  events : r.events = (List.range steps).map fun i => (s.after f o i).event f o (first + i)
  result : r.result =
    if steps < remaining then .ok (s.after f o steps).oriented.current.x
    else .error (.exhausted o.iterations (s.after f o steps).current.x)

/-- A run is as long as it takes to come to a state that is done, if that is allowed. -/
theorem IsRun.steps_eq {s : State α} {remaining first steps n : Nat}
    {r : Recorded α (Except (SearchFault α) α)} (h : IsRun f o s remaining first steps r)
    (hn : n < remaining) (hgoes : ∀ i < n, (s.after f o i).oriented.isDone o = false)
    (hdone : (s.after f o n).oriented.isDone o = true) : steps = n := by
  obtain hlt | rfl | hgt := Nat.lt_trichotomy steps n
  · have hstop := h.stops (Nat.lt_trans hlt hn)
    rw [hgoes steps hlt] at hstop
    exact absurd hstop Bool.false_ne_true
  · rfl
  · rw [h.goes_on n hgt] at hdone
    exact absurd hdone Bool.false_ne_true

/-- One more iteration in front of a run. -/
theorem IsRun.cons {s : State α} {remaining first steps : Nat}
    {r : Recorded α (Except (SearchFault α) α)} (hdone : s.oriented.isDone o = false)
    (h : IsRun f o (s.turn f o) remaining (first + 1) steps r) :
    IsRun f o s (remaining + 1) first (steps + 1) ⟨s.event f o first :: r.events, r.result⟩ where
  steps_le := Nat.succ_le_succ h.steps_le
  goes_on := by
    rintro (_ | i) hi
    · exact hdone
    · rw [← State.after_turn]
      exact h.goes_on i (Nat.lt_of_succ_lt_succ hi)
  stops hlt := by
    rw [← State.after_turn]
    exact h.stops (Nat.lt_of_succ_lt_succ hlt)
  events := by
    simp only [h.events, State.after_turn, List.range_succ_eq_map, List.map_cons, List.map_map,
      Function.comp_def, State.after_zero, Nat.add_zero, Nat.succ_eq_add_one, Nat.add_assoc,
      Nat.add_comm 1]
  result := by simp only [h.result, State.after_turn, Nat.add_lt_add_iff_right]

/-- The iterations are a run. -/
theorem exists_isRun (remaining first : Nat) (s : State α) :
    ∃ steps, IsRun f o s remaining first steps (iterate f o remaining first s) := by
  induction remaining generalizing first s with
  | zero => exact ⟨0, Nat.le_refl 0, by simp, by simp, rfl, rfl⟩
  | succ remaining ih =>
      cases hdone : s.oriented.isDone o with
      | true =>
          have hstop : iterate f o (remaining + 1) first s = ⟨[], .ok s.oriented.current.x⟩ :=
            if_pos hdone
          exact ⟨0, Nat.zero_le _, by simp, fun _ => hdone, by simp [hstop], by simp [hstop]⟩
      | false =>
          obtain ⟨steps, hrun⟩ := ih (first + 1) (s.turn f o)
          have hstep : iterate f o (remaining + 1) first s =
              ⟨s.event f o first :: (iterate f o remaining (first + 1) (s.turn f o)).events,
                (iterate f o remaining (first + 1) (s.turn f o)).result⟩ :=
            if_neg (by simpa [State.oriented] using hdone)
          rw [hstep]
          exact ⟨steps + 1, hrun.cons hdone⟩

/-! ## Whole searches -/

/-- Where the values at the ends differ in sign, the iterations run from both ends. -/
theorem exists_isRun_search {a b : α} (ha : (sample f a).isZero = false)
    (hb : (sample f b).isZero = false) (hopposite : opposite (sample f a) (sample f b) = true) :
    ∃ steps, IsRun f o (start f a b) o.iterations 1 steps (search f a b o) := by
  have hsearch : search f a b o = iterate f o o.iterations 1 (start f a b) := by
    simp [search, start, ha, hb, hopposite]
  rw [hsearch]
  exact exists_isRun o.iterations 1 (start f a b)

/-- How a search may go: an end is a root, or the values there have the same sign, or it runs. -/
inductive Course (f : α → α) (a b : α) (o : Options α) : Prop
  | lower (ha : (sample f a).isZero = true) (h : search f a b o = ⟨[], .ok a⟩)
  | upper (ha : (sample f a).isZero = false) (hb : (sample f b).isZero = true)
    (h : search f a b o = ⟨[], .ok b⟩)
  | refused (ha : (sample f a).isZero = false) (hb : (sample f b).isZero = false)
    (hsame : opposite (sample f a) (sample f b) = false)
    (h : search f a b o = ⟨[], .error (.sameSign a b (f a) (f b))⟩)
  | run (ha : (sample f a).isZero = false) (hb : (sample f b).isZero = false)
    (hopposite : opposite (sample f a) (sample f b) = true) (steps : Nat)
    (h : IsRun f o (start f a b) o.iterations 1 steps (search f a b o))

theorem course (f : α → α) (a b : α) (o : Options α) : Course f a b o := by
  by_cases ha : (sample f a).isZero = true
  · exact .lower ha (if_pos ha)
  by_cases hb : (sample f b).isZero = true
  · exact .upper (Bool.eq_false_iff.2 ha) hb (by simp [search, start, ha, hb])
  rw [Bool.not_eq_true] at ha hb
  cases hopposite : opposite (sample f a) (sample f b) with
  | false =>
      refine .refused ha hb hopposite ?_
      rw [search, start, if_neg (by simp [ha]), if_neg (by simp [hb]), if_pos (by simp [hopposite])]
      rfl
  | true =>
      obtain ⟨steps, hrun⟩ := exists_isRun_search (o := o) ha hb hopposite
      exact .run ha hb hopposite steps hrun

/-- In any case the events are those of the first iterations, numbered from 1 on. -/
theorem exists_events (f : α → α) (a b : α) (o : Options α) :
    ∃ steps ≤ o.iterations, (search f a b o).events =
      (List.range steps).map fun i => ((start f a b).after f o i).event f o (i + 1) := by
  cases course f a b o with
  | lower ha h => exact ⟨0, Nat.zero_le _, by simp [h]⟩
  | upper ha hb h => exact ⟨0, Nat.zero_le _, by simp [h]⟩
  | refused ha hb hsame h => exact ⟨0, Nat.zero_le _, by simp [h]⟩
  | run ha hb hopposite steps h => exact ⟨steps, h.steps_le, by simp [h.events, Nat.add_comm 1]⟩

end GrowthOrder.Brent
