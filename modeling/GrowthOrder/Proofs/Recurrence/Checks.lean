import GrowthOrder.Recurrence
import Mathlib.Tactic

/-!
# GrowthOrder.Proofs.Recurrence.Checks

What the checks of the model let through.

* `Call.checked_eq_ok_iff` — a call is built exactly from as many shifts as variables and from valid
  names.
* `Recurrence.checked_eq_ok_iff` — a recurrence is built exactly if its parts keep the `Rules`.
-/

namespace GrowthOrder

namespace Call

variable {α : Type}

/-- **A call is built exactly from parts that fit together and have valid names.** -/
theorem checked_eq_ok_iff {k : α} {f : String} {ps : List String} {ss : List α} {c : Call α} :
    checked k f ps ss = .ok c ↔
      ps.length = ss.length ∧ (∀ name ∈ f :: ps, Name.isValid name = true) ∧
        c = ⟨k, f, ps, ss⟩ := by
  constructor
  · intro h
    unfold checked at h
    split at h
    · exact absurd h (by simp)
    · next hlength =>
      split at h
      · exact absurd h (by simp)
      · next hfind =>
        refine ⟨not_not.1 hlength, fun name hname => ?_, (Except.ok.inj h).symm⟩
        simpa using List.find?_eq_none.1 hfind name hname
  · intro h
    obtain ⟨hlength, hvalid, rfl⟩ := h
    have hfind : ((f :: ps).find? fun name => !Name.isValid name) = none := by
      rw [List.find?_eq_none]
      intro name hname
      simp [hvalid name hname]
    rw [checked, if_neg (not_not.2 hlength), hfind]

end Call

namespace Recurrence

/-- No name is found that occurs before exactly if the names are distinct and none is among those
before. -/
theorem firstRepeated?_eq_none_iff {before names : List String} :
    firstRepeated? before names = none ↔ names.Nodup ∧ ∀ name ∈ names, name ∉ before := by
  induction names generalizing before with
  | nil => simp [firstRepeated?]
  | cons name names ih =>
      rw [firstRepeated?]
      split
      · next hmem => simp [hmem]
      · next hnew =>
        rw [ih, List.nodup_cons]
        simp only [List.mem_append, List.mem_singleton, List.forall_mem_cons]
        constructor
        · intro h
          exact ⟨⟨fun hmem => h.2 name hmem (.inr rfl), h.1⟩, hnew,
            fun other hmem hbefore => h.2 other hmem (.inl hbefore)⟩
        · intro h
          refine ⟨h.1.2, fun other hmem hother => ?_⟩
          obtain hbefore | rfl := hother
          · exact h.2.2 other hmem hbefore
          · exact h.1.1 hmem

theorem callFault?_eq_none_iff {α : Type} {signature c : Call α} :
    callFault? signature c = none ↔
      c.function = signature.function ∧ c.parameters = signature.parameters := by
  unfold callFault?
  split
  · next h => simpa using fun hfunction => absurd hfunction h
  · next h =>
    split
    · next h' => simpa using fun _ hparameters => absurd hparameters h'
    · next h' => exact iff_of_true rfl ⟨not_not.1 h, not_not.1 h'⟩

variable {α : Type} [Scalar α]

/-- The rules that the check of a whole recurrence enforces. -/
structure Rules (r : Recurrence α) : Prop where
  coefficient : (r.signature.coefficient == (1.0 : α)) = true
  shifts : ∀ s ∈ r.signature.shifts, (s == (0.0 : α)) = true
  distinct : r.parameters.Nodup
  calls : ∀ c ∈ r.calls, c.function = r.function ∧ c.parameters = r.parameters

/-- **A recurrence is built exactly if its parts keep the rules.** -/
theorem checked_eq_ok_iff {signature : Call α} {terms : List (Term α)} {r : Recurrence α} :
    checked signature terms = .ok r ↔ r = ⟨signature, terms⟩ ∧ r.Rules := by
  constructor
  · intro h
    unfold checked at h
    split at h
    · exact absurd h (by simp)
    · next hcoefficient =>
      split at h
      · exact absurd h (by simp)
      · next hshifts =>
        split at h
        · exact absurd h (by simp)
        · next hdistinct =>
          split at h
          · exact absurd h (by simp)
          · next hcalls =>
            obtain rfl := Except.ok.inj h
            exact ⟨rfl, by simpa using hcoefficient, by simpa using hshifts,
              (firstRepeated?_eq_none_iff.1 hdistinct).1,
              fun c hc => callFault?_eq_none_iff.1 (List.findSome?_eq_none_iff.1 hcalls c hc)⟩
  · intro h
    obtain ⟨rfl, hcoefficient, hshifts, hdistinct, hcalls⟩ := h
    have hany : (signature.shifts.any fun s => !(s == (0.0 : α))) = false := by
      rw [List.any_eq_false]
      intro s hs
      simp [hshifts s hs]
    have hnone : firstRepeated? [] signature.parameters = none :=
      firstRepeated?_eq_none_iff.2 ⟨hdistinct, by simp⟩
    have hfault : (Term.calls terms).findSome? (callFault? signature) = none :=
      List.findSome?_eq_none_iff.2 fun c hc => callFault?_eq_none_iff.2 (hcalls c hc)
    have hone : (signature.coefficient == (1.0 : α)) = true := hcoefficient
    simp only [checked, hone, hany, hnone, hfault, Bool.not_true, Bool.false_eq_true, if_false]

/-- A recurrence as the model builds it: every call has passed its check, and so has the whole. -/
structure IsChecked (r : Recurrence α) : Prop where
  signature : Call.checked r.signature.coefficient r.function r.parameters r.signature.shifts =
    .ok r.signature
  calls : ∀ c ∈ r.calls, Call.checked c.coefficient c.function c.parameters c.shifts = .ok c
  whole : Recurrence.checked r.signature r.terms = .ok r

theorem IsChecked.rules {r : Recurrence α} (hr : r.IsChecked) : r.Rules :=
  (checked_eq_ok_iff.1 hr.whole).2

end Recurrence

end GrowthOrder
