import GrowthOrder.Proofs.Search.Enclosure

/-!
# GrowthOrder.Proofs.Search.Narrowing

In exact arithmetic Brent's method narrows its interval in every iteration and never divides by
zero, over every ordered field and for every function.

A field divides by zero too, with a result of no meaning.  So the two interpolations are written
once more with divisions that are checked (`Exact.divide?`), and wherever an iteration interpolates,
the checked one gives the same step.
-/

namespace GrowthOrder

variable {K : Type} [Field K] [LinearOrder K] [WholePart K] [ExpLog K]

/-! ## Checked divisions -/

/-- The quotient, where there is one. -/
def Exact.divide? (x y : Exact K) : Option (Exact K) :=
  if y.val = 0 then none else some (x / y)

theorem Exact.divide?_eq {x y : Exact K} (h : y.val ≠ 0) : x.divide? y = some (x / y) :=
  if_neg h

namespace Brent

variable {f : Exact K → Exact K} {o : Options (Exact K)}

namespace State

/-- The step along the secant, if it divides by no zero. -/
def secant? (s : State (Exact K)) : Option (Exact K) :=
  (-s.current.value * (s.current.x - s.previous.x)).divide? (s.current.value - s.previous.value)

/-- The step along the inverse quadratic, if it divides by no zero. -/
def inverseQuadratic? (s : State (Exact K)) : Option (Exact K) := do
  let slopePrevious ←
    (s.previous.value - s.current.value).divide? (s.previous.x - s.current.x)
  let slopeBlocking ←
    (s.blocking.value - s.current.value).divide? (s.blocking.x - s.current.x)
  let curvature := slopeBlocking * slopePrevious * (s.blocking.value - s.previous.value)
  let slope := s.blocking.value * slopeBlocking - s.previous.value * slopePrevious
  (-s.current.value * slope).divide? curvature

/-- The step that interpolation suggests, if it divides by no zero. -/
def interpolation? (s : State (Exact K)) : Option (Exact K) :=
  if s.previous.x == s.blocking.x then s.secant? else s.inverseQuadratic?

variable {s : State (Exact K)}

theorem secant?_eq (h : s.current.value.val ≠ s.previous.value.val) :
    s.secant? = some s.secant :=
  Exact.divide?_eq (sub_ne_zero.2 h)

/-- The inverse quadratic needs two steps and three values that all differ. -/
theorem inverseQuadratic?_eq (hback : s.previous.x.val - s.current.x.val ≠ 0)
    (hway : s.blocking.x.val - s.current.x.val ≠ 0)
    (hprevious : s.previous.value.val ≠ s.current.value.val)
    (hblocking : s.blocking.value.val ≠ s.current.value.val)
    (hends : s.blocking.value.val ≠ s.previous.value.val) :
    s.inverseQuadratic? = some s.inverseQuadratic := by
  have hslopePrevious := div_ne_zero (sub_ne_zero.2 hprevious) hback
  have hslopeBlocking := div_ne_zero (sub_ne_zero.2 hblocking) hway
  have hcurvature := mul_ne_zero (mul_ne_zero hslopeBlocking hslopePrevious) (sub_ne_zero.2 hends)
  rw [inverseQuadratic?, Exact.divide?_eq (y := s.previous.x - s.current.x) hback,
    Exact.divide?_eq (y := s.blocking.x - s.current.x) hway]
  exact Exact.divide?_eq hcurvature

end State

theorem value_ne_of_opposite {p q : Sample (Exact K)} (h : opposite p q = true) :
    p.value.val ≠ q.value.val := by
  intro heq
  rw [opposite, Exact.ext heq, bne_self_eq_false] at h
  exact Bool.false_ne_true h

variable [IsStrictOrderedRing K]

/-- **Interpolation divides by no zero**, if the value shrank in the last step. -/
theorem State.Poised.interpolation?_eq {s : State (Exact K)} (h : s.Poised f)
    (hshrank : |s.current.value.val| < |s.previous.value.val|) :
    s.interpolation? = some s.interpolation := by
  have hblocking := (value_ne_of_opposite h.opposite).symm
  obtain heq | ⟨-, hsame, hbetween⟩ := h.anchored
  · have hchecked : s.interpolation? = s.secant? := by simp [interpolation?, heq]
    have hinterpolation : s.interpolation = s.secant := by simp [interpolation, heq]
    rw [hchecked, hinterpolation]
    exact secant?_eq (heq ▸ hblocking.symm)
  · have hchecked : s.interpolation? = s.inverseQuadratic? := by
      simp [interpolation?, hbetween.ne]
    have hinterpolation : s.interpolation = s.inverseQuadratic := by
      simp [interpolation, hbetween.ne]
    have hsides := mul_ne_zero_iff.1 hbetween.mul_neg.ne
    have hprevious : s.previous.value.val ≠ s.current.value.val := fun hvalue =>
      hshrank.ne (by rw [hvalue])
    have hends := value_ne_of_opposite
      (opposite_of_same h.opposite (by rwa [opposite_comm]))
    rw [hchecked, hinterpolation]
    exact inverseQuadratic?_eq hsides.1 hsides.2 hprevious hblocking hends.symm

/-! ## The whole search -/

/-- **Every iteration narrows the interval, and divides by no zero.**

The points that are evaluated lie between the ends.  The iteration of an event starts from points
with a change of sign between them, both where the search was started; the point of the event lies
strictly between the two, and the interval that the next iteration starts from is a part of theirs.
If it interpolates, it divides by no zero. -/
theorem search_narrows (habsolute : 0 < o.absolute.val) (hrelative : 0 ≤ o.relative.val)
    (f : Exact K → Exact K) (a b : Exact K) :
    (∀ p ∈ evaluated f a b o, p.val ∈ Set.uIcc a.val b.val) ∧
    ∀ i (hi : i < (search f a b o).events.length),
      let s := ((start f a b).after f o i).oriented
      let t := ((start f a b).after f o (i + 1)).oriented
      (search f a b o).events[i] = .brent (i + 1) (s.next o) (f (s.next o)) (s.step o) ∧
        s.Enclosed f ∧
        Between s.current.x.val (s.next o).val s.blocking.x.val ∧
        s.interval ⊆ Set.uIcc a.val b.val ∧ t.interval ⊂ s.interval ∧
        (s.mayInterpolate o = true → s.interpolation? = some s.interpolation) := by
  refine ⟨fun p hp => evaluated_mem_uIcc habsolute hrelative hp, fun i hi => ?_⟩
  intro s t
  cases course f a b o with
  | lower ha h => simp [h] at hi
  | upper ha hb h => simp [h] at hi
  | refused ha hb hsame h => simp [h] at hi
  | run ha hb hopposite steps h =>
      have hsteps : i < steps := by simpa [h.events] using hi
      have hstart := spanned_start (f := f) ha hopposite
      have hpoised : s.Poised f := h.poised habsolute hrelative hstart hsteps
      refine ⟨?_, hpoised.toEnclosed,
        hpoised.next_between habsolute hrelative (h.goes_on i hsteps), ?_,
        h.interval_ssubset habsolute hrelative hstart hsteps, fun hmay => ?_⟩
      · simp only [h.events, List.getElem_map, List.getElem_range, Nat.add_comm 1]
        rfl
      · rw [← interval_start ha hopposite hb]
        exact h.interval_subset habsolute hrelative hstart hsteps.le
      · have hshrank := (Bool.and_eq_true_iff.1 hmay).2
        exact hpoised.interpolation?_eq (by simpa [Exact.lt_iff] using hshrank)

/-- The second step toward the square root of 2 is along an inverse quadratic, from 4/3 to 149/105
while 2 is the blocking point. -/
theorem search_narrows_sqrt_two :
    let f : Exact ℚ → Exact ℚ := fun x => x * x - 2.0
    let o : Options (Exact ℚ) := ⟨⟨1 / 1000⟩, ⟨0⟩, 2⟩
    let s := ((start f 1.0 2.0).after f o 1).oriented
    (search f 1.0 2.0 o).events.length = 2 ∧
      (s.current.x.val, (s.next o).val, s.blocking.x.val) = (4 / 3, 149 / 105, 2) ∧
      Between s.current.x.val (s.next o).val s.blocking.x.val ∧
      s.interpolation? = some s.inverseQuadratic := by
  intro f o s
  have hlength : (search f 1.0 2.0 o).events.length = 2 := by decide +kernel
  have hquadratic : s.interpolation = s.inverseQuadratic := by decide +kernel
  obtain ⟨-, -, hbetween, -, -, hchecked⟩ := (search_narrows (o := o) (by norm_num [o])
    (by norm_num [o]) f 1.0 2.0).2 1 (by rw [hlength]; exact Nat.one_lt_two)
  refine ⟨hlength, by decide +kernel, hbetween, ?_⟩
  rw [← hquadratic]
  exact hchecked (by decide +kernel)

end Brent

end GrowthOrder
