import GrowthOrder.Proofs.Binary64.Equality
import GrowthOrder.Recurrence

/-!
# GrowthOrder.Proofs.Recurrence.Equality

Calls, terms and recurrences up to the signs of their zeros.  On parts without a NaN, `==` holds
exactly of what differs in the signs of zeros only (`Term.same_of_beq`, `Term.beq_of_same`).
-/

namespace GrowthOrder

open Binary64 (beq_iff)

/-- Lists are `==` element by element. -/
theorem list_beq_iff {α : Type} [BEq α] {xs ys : List α} :
    (xs == ys) = true ↔ List.Forall₂ (fun x y => (x == y) = true) xs ys := by
  induction xs generalizing ys with
  | nil => cases ys <;> simp
  | cons x xs ih =>
      cases ys with
      | nil => simp
      | cons y ys => simp [ih]

section Lists

variable {α : Type} {R : α → α → Prop} {xs ys zs : List α}

theorem forall₂_trans (hR : ∀ x y z, R x y → R y z → R x z) (hxy : List.Forall₂ R xs ys)
    (hyz : List.Forall₂ R ys zs) : List.Forall₂ R xs zs := by
  induction hxy generalizing zs with
  | nil => exact hyz
  | cons h _ ih =>
      cases hyz with
      | cons h' hyz => exact .cons (hR _ _ _ h h') (ih hyz)

/-- Lists are `==` if related elements are, as far as they satisfy `P`. -/
theorem beq_of_forall₂ [BEq α] {P : α → Prop} (hR : ∀ x y, R x y → P y → (x == y) = true)
    (h : List.Forall₂ R xs ys) (hys : ∀ y ∈ ys, P y) : (xs == ys) = true := by
  rw [list_beq_iff]
  induction h with
  | nil => exact .nil
  | cons h _ ih =>
      rw [List.forall_mem_cons] at hys
      exact .cons (hR _ _ h hys.1) (ih hys.2)

end Lists

/-! ## Calls -/

namespace Call

/-- Calls that differ in the signs of zeros only. -/
structure Same (c d : Call Float) : Prop where
  coefficient : Binary64.Same c.coefficient d.coefficient
  function : c.function = d.function
  parameters : c.parameters = d.parameters
  shifts : List.Forall₂ Binary64.Same c.shifts d.shifts

theorem Same.trans {b c d : Call Float} (hbc : b.Same c) (hcd : c.Same d) : b.Same d where
  coefficient := hbc.coefficient.trans hcd.coefficient
  function := hbc.function.trans hcd.function
  parameters := hbc.parameters.trans hcd.parameters
  shifts := forall₂_trans (fun _ _ _ => Binary64.Same.trans) hbc.shifts hcd.shifts

/-- A call without a NaN. -/
structure NoNaN (c : Call Float) : Prop where
  coefficient : c.coefficient.isNaN = false
  shifts : ∀ s ∈ c.shifts, s.isNaN = false

theorem beq_iff (c d : Call Float) :
    (c == d) = true ↔ (c.coefficient == d.coefficient) = true ∧ c.function = d.function ∧
      c.parameters = d.parameters ∧ (c.shifts == d.shifts) = true := by
  obtain ⟨k, f, ps, ss⟩ := c
  obtain ⟨k', f', ps', ss'⟩ := d
  change instBEqCall.beq _ _ = true ↔ _
  simp [instBEqCall.beq]

theorem same_of_beq {c d : Call Float} (h : (c == d) = true) : c.Same d := by
  obtain ⟨hcoefficient, hfunction, hparameters, hshifts⟩ := (beq_iff c d).1 h
  exact ⟨((Binary64.beq_iff _ _).1 hcoefficient).1, hfunction, hparameters,
    (list_beq_iff.1 hshifts).imp fun _ _ h => ((Binary64.beq_iff _ _).1 h).1⟩

theorem beq_of_same {c d : Call Float} (h : c.Same d) (hd : d.NoNaN) : (c == d) = true := by
  have hnumber (x y : Float) (h : Binary64.Same x y) (hy : y.isNaN = false) : (x == y) = true :=
    (Binary64.beq_iff x y).2 ⟨h, h.isNaN.trans hy⟩
  rw [beq_iff]
  exact ⟨hnumber _ _ h.coefficient hd.coefficient, h.function, h.parameters,
    beq_of_forall₂ hnumber h.shifts hd.shifts⟩

end Call

/-! ## Terms -/

namespace Term

/-- Terms that differ in the signs of zeros only. -/
inductive Same : Term Float → Term Float → Prop
  | constant {x y : Float} (h : Binary64.Same x y) : Same (.constant x) (.constant y)
  | call {c d : Call Float} (h : c.Same d) : Same (.call c) (.call d)

theorem Same.trans {t u v : Term Float} (htu : t.Same u) (huv : u.Same v) : t.Same v := by
  cases htu with
  | constant h =>
      cases huv with
      | constant h' => exact .constant (h.trans h')
  | call h =>
      cases huv with
      | call h' => exact .call (h.trans h')

/-- A term without a NaN. -/
def NoNaN : Term Float → Prop
  | .constant c => c.isNaN = false
  | .call c => c.NoNaN

theorem same_of_beq {t u : Term Float} (h : (t == u) = true) : t.Same u := by
  cases t with
  | constant x =>
      cases u with
      | constant y => exact .constant ((Binary64.beq_iff x y).1 h).1
      | call d => exact absurd h Bool.false_ne_true
  | call c =>
      cases u with
      | constant y => exact absurd h Bool.false_ne_true
      | call d => exact .call (Call.same_of_beq h)

theorem beq_of_same {t u : Term Float} (h : t.Same u) (hu : u.NoNaN) : (t == u) = true := by
  cases h with
  | constant h => exact (Binary64.beq_iff _ _).2 ⟨h, h.isNaN.trans hu⟩
  | call h => exact Call.beq_of_same h hu

theorem sames_of_beq {ts us : List (Term Float)} (h : (ts == us) = true) :
    List.Forall₂ Term.Same ts us :=
  (list_beq_iff.1 h).imp fun _ _ => same_of_beq

end Term

/-! ## Recurrences -/

theorem Recurrence.beq_iff (r s : Recurrence Float) :
    (r == s) = true ↔ (r.signature == s.signature) = true ∧ (r.terms == s.terms) = true := by
  obtain ⟨c, ts⟩ := r
  obtain ⟨d, us⟩ := s
  change instBEqRecurrence.beq _ _ = true ↔ _
  simp [instBEqRecurrence.beq]

end GrowthOrder
