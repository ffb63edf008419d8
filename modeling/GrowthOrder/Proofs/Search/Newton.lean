import GrowthOrder.Search.Newton

/-!
# GrowthOrder.Proofs.Search.Newton

What a result of Newton's method says: its last step was short.  Nothing is known about the value
at the result, unless the method stopped there for its being zero.
-/

namespace GrowthOrder.Newton

variable {α : Type} [Scalar α] {f : α → α × α} {o : Options α}

/-- `x` is a root of `f`, or one step within the tolerance away from the point before it. -/
def Reached (f : α → α × α) (o : Options α) (x : α) : Prop :=
  ((f x).1 == (0.0 : α)) = true ∨
    ∃ p, x = p - (f p).1 / (f p).2 ∧ Scalar.abs (x - p) < o.tolerance

theorem iterate_reached {remaining iteration : Nat} {start x : α}
    (hx : (iterate f o remaining iteration start).result = .ok x) : Reached f o x := by
  induction remaining generalizing iteration start with
  | zero => simp [iterate] at hx
  | succ remaining ih =>
      unfold iterate at hx
      by_cases hvalue : ((f start).1 == (0.0 : α)) = true
      · simp only [hvalue, if_true, Except.ok.injEq] at hx
        exact .inl (hx ▸ hvalue)
      by_cases hslope : ((f start).2 == (0.0 : α)) = true
      · simp [hvalue, hslope] at hx
      by_cases hfinite : Scalar.isFinite (start - (f start).1 / (f start).2) = true
      · by_cases hshort :
            Scalar.abs (start - (f start).1 / (f start).2 - start) < o.tolerance
        · simp only [hvalue, hslope, hfinite, hshort, Bool.not_true, Bool.false_eq_true, if_true,
            if_false, Except.ok.injEq] at hx
          exact .inr ⟨start, hx.symm, hx ▸ hshort⟩
        · simp only [hvalue, hslope, hfinite, hshort, Bool.not_true, Bool.false_eq_true,
            if_false] at hx
          exact ih hx
      · simp [hvalue, hslope, hfinite] at hx

/-- A result is a root, or its last step was within the tolerance. -/
theorem search_reached {start x : α} (hx : (search f start o).result = .ok x) : Reached f o x :=
  iterate_reached hx

end GrowthOrder.Newton
