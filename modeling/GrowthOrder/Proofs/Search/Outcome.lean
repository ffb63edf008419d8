import GrowthOrder.Search.Dominant
import Mathlib.Tactic.SplitIfs

/-!
# GrowthOrder.Proofs.Search.Outcome

Where a reported root comes from.  It is 1, for a function that needs no search, or a point that was
found in a bracket, perhaps snapped to a whole number: by Brent's method, or by Newton's method if
the point is in the range in which that is believed.
-/

namespace GrowthOrder

variable {α : Type} [Scalar α]

/-! ## Upper ends -/

namespace Bracket

theorem exists_power_of_doublingFrom {g : Characteristic α} {remaining k : Nat} {upper : α}
    (h : (doublingFrom g remaining k).result = some upper) :
    ∃ j, upper = Scalar.power 2.0 j := by
  induction remaining generalizing k with
  | zero => simp [doublingFrom] at h
  | succ remaining ih =>
      simp only [doublingFrom] at h
      split_ifs at h
      · exact ⟨k, (Option.some.inj h).symm⟩
      · exact ih h

end Bracket

namespace Search

/-! ## In a bracket -/

/-- A root that is found in the bracket `[1, upper]`. -/
inductive Found (g : Characteristic α) (upper tolerance : α) : α → Prop
  /-- Brent's method stopped at the point. -/
  | inside {x : α} (h : (Brent.search g.value 1.0 upper .standard).result = .ok x) :
    Found g upper tolerance (Scalar.snap x tolerance)
  /-- Newton's method stopped at the point, and is believed. -/
  | accepted {x : α} (h : accepts upper x = true) :
    Found g upper tolerance (Scalar.snap x tolerance)

variable {g : Characteristic α} {upper tolerance r : α}

theorem found_of_inBracket (h : (inBracket g upper tolerance).result = .finite r) :
    Found g upper tolerance r := by
  simp only [inBracket] at h
  split at h
  · simp at h
  · next x hx =>
    rw [← Root.finite.inj h]
    exact .inside hx

theorem found_of_withGuess {guess : Option α}
    (h : (withGuess g guess upper).result = .finite r) : Found g upper deltaTolerance r := by
  unfold withGuess at h
  split at h
  · exact found_of_inBracket h
  · simp only [fromGuess] at h
    split at h
    · exact found_of_inBracket h
    · split at h
      · next haccepts =>
        rw [← Root.finite.inj h]
        exact .accepted haccepts
      · exact found_of_inBracket h

theorem exists_of_bracketed {bracket : Recorded α (Option α)} {search : α → Recorded α (Root α)}
    (h : (bracketed bracket search).result = .finite r) :
    ∃ upper, bracket.result = some upper ∧ (search upper).result = .finite r := by
  unfold bracketed at h
  split at h
  · simp at h
  · next upper hupper => exact ⟨upper, hupper, h⟩

/-! ## The whole search -/

theorem found_of_ofCharacteristic (h : (ofCharacteristic g).result = .finite r) :
    r = 1.0 ∨ ∃ upper, (Bracket.byDoubling g).result = some upper ∧
      Found g upper recurrenceTolerance r := by
  unfold ofCharacteristic at h
  split_ifs at h
  · exact .inl (Root.finite.inj h).symm
  · exact .inl (Root.finite.inj h).symm
  · obtain ⟨upper, hupper, hfound⟩ := exists_of_bracketed h
    exact .inr ⟨upper, hupper, found_of_inBracket hfound⟩

theorem found_of_ofDeltas {deltas : List α} {guess : Option α}
    (h : (ofDeltas deltas guess).result = .finite r) :
    r = 1.0 ∨ ∃ minDelta upper,
      (Bracket.fromBound (Characteristic.unit deltas) minDelta).result = some upper ∧
        Found (Characteristic.unit deltas) upper deltaTolerance r := by
  simp only [ofDeltas] at h
  split at h
  · simp at h
  · simp at h
  · exact .inl (Root.finite.inj h).symm
  · next minDelta _ _ _ =>
    split_ifs at h
    obtain ⟨upper, hupper, hfound⟩ := exists_of_bracketed h
    exact .inr ⟨minDelta, upper, hupper, found_of_withGuess hfound⟩

end Search

theorem Recurrence.dominantRoot_eq_ok_iff {r : Recurrence α} {search : Recorded α (Root α)} :
    r.dominantRoot = .ok search ↔ r.parameters.length = 1 ∧
      search = Search.finish (Search.ofCharacteristic (Characteristic.ofRecurrence r)) := by
  unfold dominantRoot
  split_ifs with h
  · simp [h, eq_comm]
  · simp [h]

end GrowthOrder
