import GrowthOrder.Analysis
import GrowthOrder.Proofs.Growth
import GrowthOrder.Proofs.Report
import GrowthOrder.Proofs.Search.Outcome

/-!
# GrowthOrder.Proofs.Analysis

What the two reports about an analysis tell.  An analysis of a text is in one variable, so that it
can always be reported, and both forms of a report tell the same about the outcome.
-/

namespace GrowthOrder

/-! ## Analyses -/

namespace Analysis

theorem ofText_eq_ok_iff {text : String} {a : Analysis} {trace : Trace Float} :
    ofText text = .ok (a, trace) ↔ ∃ r search, Recurrence.parse text = .ok r ∧
      r.dominantRoot = .ok search ∧ a = ⟨r, search.result⟩ ∧ trace = search.events := by
  unfold ofText
  cases Recurrence.parse text with
  | error e => simp
  | ok r => cases hsearch : r.dominantRoot <;> simp [hsearch, eq_comm]

/-- A recurrence in one variable can be analysed. -/
theorem exists_ofText {text : String}
    (h : ((Recurrence.parse text).toOption.map fun r => r.parameters.length) = some 1) :
    ∃ a trace, ofText text = .ok (a, trace) := by
  cases hparse : Recurrence.parse text with
  | error e => simp [hparse, Except.toOption] at h
  | ok r =>
      have hlength : r.parameters.length = 1 := by simpa [hparse, Except.toOption] using h
      exact ⟨_, _, ofText_eq_ok_iff.2
        ⟨r, _, hparse, Recurrence.dominantRoot_eq_ok_iff.2 ⟨hlength, rfl⟩, rfl, rfl⟩⟩

/-- The recurrence of an analysis is in one variable. -/
theorem exists_parameter {text : String} {a : Analysis} {trace : Trace Float}
    (h : ofText text = .ok (a, trace)) :
    ∃ name, a.recurrence.parameters = [name] ∧ Name.isValid name = true := by
  obtain ⟨r, search, hparse, hsearch, rfl, -⟩ := ofText_eq_ok_iff.1 h
  obtain ⟨name, hname⟩ := List.length_eq_one_iff.1 (Recurrence.dominantRoot_eq_ok_iff.1 hsearch).1
  refine ⟨name, hname, Recurrence.isValid_of_parse hparse name ?_⟩
  simp [hname]

variable {a : Analysis} {name : String}

theorem growthOrder_eq (h : a.recurrence.parameters = [name]) :
    a.growthOrder = .ok (a.root.growthOrder name) := by
  simp [growthOrder, Recurrence.growthOrder, h]

theorem exists_textReport (h : a.recurrence.parameters = [name]) (verbose : Bool) :
    ∃ text, a.textReport verbose = .ok text := by
  unfold textReport outcomeLines
  rw [growthOrder_eq h]
  cases a.root <;> cases verbose <;> simp

/-- The report on one line is the growth order. -/
theorem textReport_of_finite (h : a.recurrence.parameters = [name]) {x : Float}
    (hroot : a.root = .finite x) : a.textReport false = .ok (a.root.growthOrder name) := by
  rw [textReport, outcomeLines, growthOrder_eq h, hroot]
  simp

end Analysis

/-! ## Reports for programs -/

namespace Analysis

variable {a : Analysis} {name : String}

theorem exists_outcomeReport (h : a.recurrence.parameters = [name]) :
    ∃ r, a.outcomeReport = .ok r := by
  rw [outcomeReport, growthOrder_eq h]
  cases a.root <;> exact ⟨_, rfl⟩

theorem ok_outcomeReport {r : Report} (h : a.outcomeReport = .ok r) : r.ok = a.isSuccess := by
  unfold outcomeReport at h
  rw [isSuccess]
  split at h
  · next hroot =>
    rw [← Except.ok.inj h, hroot]
    rfl
  · next hroot =>
    rw [← Except.ok.inj h, hroot]
    rfl
  · next hroot =>
    split at h
    · simp at h
    · rw [← Except.ok.inj h, hroot]
      rfl

theorem asymptotics_outcomeReport (h : a.recurrence.parameters = [name]) {x : Float}
    (hroot : a.root = .finite x) {r : Report} (hr : a.outcomeReport = .ok r) :
    r.asymptotics = some (a.root.growthOrder name) := by
  rw [outcomeReport, growthOrder_eq h, hroot] at hr
  rw [← Except.ok.inj hr, hroot]

/-- Both forms of the report tell the same about the outcome. -/
theorem exists_report {r : Report} (h : a.outcomeReport = .ok r) (verbose : Bool) :
    ∃ r', a.report verbose = .ok r' ∧ r'.SameOutcome r := by
  rw [report, h]
  cases verbose with
  | false => exact ⟨r, rfl, rfl, rfl, rfl, rfl, rfl⟩
  | true => exact ⟨_, rfl, rfl, rfl, rfl, rfl, rfl⟩

end Analysis

end GrowthOrder
