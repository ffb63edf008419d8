import GrowthOrder.Proofs.Search.History

/-!
# GrowthOrder.Proofs.Search.Rejection

What a hint in vain costs: nothing but the attempt.  A search keeps nothing from an attempt that is
rejected, neither a point nor a narrower bracket, so what it does afterwards is what it does without
a hint.

* `fromGuess_of_rejection` — in a bracket, a rejected attempt stands in front of the search without
  a hint.
* `dominantRoot_of_vain_hint` — the same of whole searches, and that a hint which is not finite is
  none.
-/

namespace GrowthOrder

open Characteristic Search Stages

variable {α : Type} [Scalar α]

namespace Search

/-- In a bracket, a hint that is not finite is none. -/
theorem withGuess_of_not_isFinite (g : Characteristic α) {guess : Option α} (upper : α)
    (h : ∀ hint ∈ guess, Scalar.isFinite hint = false) :
    withGuess g guess upper = withGuess g none upper := by
  have hnone : guess.filter (fun x => Scalar.isFinite x) = none := by
    rw [Option.filter_eq_none_iff]
    exact fun hint hmem => Bool.eq_false_iff.1 (h hint hmem)
  rw [withGuess, hnone]
  rfl

/-- In a bracket, a rejected attempt stands in front of the search without a hint. -/
theorem fromGuess_of_rejection {g : Characteristic α} {upper hint : α}
    (h : newtonRoot? g upper hint = none) :
    ∃ newton reason, fromGuess g upper hint =
      ⟨newtonEvents 1 newton ++ .rejected reason :: (withGuess g none upper).events,
        (withGuess g none upper).result⟩ := by
  obtain ⟨p, points, hpoints⟩ := exists_newton g.evaluate (Scalar.clamp hint 1.0 upper)
  simp only [newtonRoot?] at h
  simp only [fromGuess, hpoints]
  cases hresult : (Newton.search g.evaluate (Scalar.clamp hint 1.0 upper) .standard).result with
  | error e => exact ⟨p :: points, "did not converge", rfl⟩
  | ok x =>
      have haccepts : accepts upper x = false := by simpa [hresult] using h
      simp only [haccepts, Bool.false_eq_true, if_false]
      exact ⟨p :: points, "converged outside bracket", rfl⟩

/-- In a bracket, the attempt is all that a rejection adds. -/
theorem withGuess_of_rejection {g : Characteristic α} {guess : Option α} {upper : α}
    (h : (withGuess g guess upper).events.any Event.isRejection = true) :
    ∃ newton reason, withGuess g guess upper =
      ⟨newtonEvents 1 newton ++ .rejected reason :: (withGuess g none upper).events,
        (withGuess g none upper).result⟩ := by
  rw [any_isRejection_withGuess] at h
  rw [withGuess]
  cases hfinite : guess.filter fun x => Scalar.isFinite x with
  | none => simp [hfinite] at h
  | some hint =>
      refine fromGuess_of_rejection ?_
      simpa [hfinite] using h

end Search

/-- **A hint in vain costs nothing.**  With a hint that is not finite a search is the one without a
hint, event for event.  A search that rejects what Newton's method found has the outcome of the one
without a hint, and records what that one does with the attempt put in right behind the bracket. -/
theorem dominantRoot_of_vain_hint (deltas : List α) (guess : Option α) :
    ((∀ hint ∈ guess, Scalar.isFinite hint = false) →
      dominantRoot deltas guess = dominantRoot deltas none) ∧
    ((dominantRoot deltas guess).events.any Event.isRejection = true →
      (dominantRoot deltas guess).result = (dominantRoot deltas none).result ∧
        ∃ probes upper newton reason rest,
          (dominantRoot deltas none).events = probeEvents probes ++ .bracket 1.0 upper :: rest ∧
            (dominantRoot deltas guess).events =
              probeEvents probes ++
                .bracket 1.0 upper :: (newtonEvents 1 newton ++ .rejected reason :: rest) ∧
            rest.any Event.isNewton = false ∧ rest.any Event.isRejection = false) := by
  have hnone (upper : α) :
      (withGuess (unit deltas) none upper).events.any Event.isNewton = false ∧
        (withGuess (unit deltas) none upper).events.any Event.isRejection = false :=
    ⟨by rw [any_isNewton_withGuess]; rfl, by rw [any_isRejection_withGuess]; rfl⟩
  rw [any_dominantRoot deltas guess (fun _ _ => rfl) fun _ => rfl, dominantRoot, dominantRoot,
    finish, finish]
  cases approach deltas with
  | unbracketed probes outcome hbracket h =>
      rw [h, h, hbracket]
      exact ⟨fun _ => rfl, fun hrejection => absurd hrejection Bool.false_ne_true⟩
  | bracketed probes upper hbracket h =>
      rw [h, h, hbracket]
      refine ⟨fun hvain => by rw [withGuess_of_not_isFinite _ upper hvain], fun hrejection => ?_⟩
      obtain ⟨newton, reason, hattempt⟩ := withGuess_of_rejection (g := unit deltas) hrejection
      rw [hattempt]
      refine ⟨rfl, probes, upper, newton, reason,
        (withGuess (unit deltas) none upper).events ++
          [.finished (withGuess (unit deltas) none upper).result], ?_, ?_, ?_, ?_⟩
      · simp
      · simp
      · rw [List.any_append, (hnone upper).1]
        rfl
      · rw [List.any_append, (hnone upper).2]
        rfl

/-- A hint that is no number, and one at which the slope vanishes. -/
theorem dominantRoot_of_vain_hint_flat :
    let nan : Float := 0.0 / 0.0
    (∀ hint ∈ some nan, Scalar.isFinite hint = false) ∧
      dominantRoot [1.0, 2.0] (some nan) = dominantRoot [1.0, 2.0] none ∧
      (dominantRoot [1.0, 1.0] (some (2.0 : Exact ℚ))).events.any Event.isRejection = true ∧
      (dominantRoot [1.0, 1.0] (some (2.0 : Exact ℚ))).result =
        (dominantRoot [1.0, 1.0] none).result ∧
      ∃ probes upper newton reason rest,
        (dominantRoot [1.0, 1.0] (none : Option (Exact ℚ))).events =
            probeEvents probes ++ .bracket 1.0 upper :: rest ∧
          (dominantRoot [1.0, 1.0] (some (2.0 : Exact ℚ))).events =
            probeEvents probes ++
              .bracket 1.0 upper :: (newtonEvents 1 newton ++ .rejected reason :: rest) ∧
          rest.any Event.isNewton = false ∧ rest.any Event.isRejection = false := by
  have hnan : ∀ hint ∈ some (0.0 / 0.0 : Float), Scalar.isFinite hint = false := by
    intro hint hmem
    rw [← Option.some.inj hmem]
    decide +kernel
  have hflat :
      (dominantRoot [1.0, 1.0] (some (2.0 : Exact ℚ))).events.any Event.isRejection = true := by
    decide +kernel
  exact ⟨hnan, (dominantRoot_of_vain_hint _ _).1 hnan, hflat,
    (dominantRoot_of_vain_hint _ _).2 hflat⟩

end GrowthOrder
