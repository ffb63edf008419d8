import GrowthOrder.CommandLine
import GrowthOrder.Proofs.Analysis

/-!
# GrowthOrder.Proofs.CommandLine

What a run writes, and its exit code.  Four forms of report are told from each other by the options
`json` and `verbose`, and each is rendered on its own; here they are shown to tell the same.

A run is put in terms of two things that do not depend on the form that is asked for: what its input
comes to (`analysed`), and the report for programs about that (`reported`).
-/

namespace GrowthOrder

/-- What the input comes to, before any report is rendered. -/
def analysed (sources : Sources) (input : Option String) : Except AnalysisFault Analysis :=
  match sources.read input with
  | .error e => .error e
  | .ok text => match Analysis.ofText text with
    | .error e => .error e
    | .ok (a, _) => .ok a

/-- The report for programs about some input. -/
def reported (sources : Sources) (input : Option String) (verbose : Bool) : Report :=
  match analysed sources input with
  | .error e => .failure e.message
  | .ok a => match a.report verbose with
    | .error e => .failure e.message
    | .ok r => r

/-! ## Runs -/

section

variable {sources : Sources} {options : Options}

theorem analysed_eq_ok_iff {input : Option String} {a : Analysis} :
    analysed sources input = .ok a ↔ ∃ text trace, sources.read input = .ok text ∧
      Analysis.ofText text = .ok (a, trace) := by
  unfold analysed
  cases sources.read input with
  | error e => simp
  | ok text =>
      cases htext : Analysis.ofText text with
      | error e => simp [htext]
      | ok p => simp [htext, Prod.ext_iff]

theorem exists_parameter_of_analysed {input : Option String} {a : Analysis}
    (h : analysed sources input = .ok a) :
    ∃ name, a.recurrence.parameters = [name] ∧ Name.isValid name = true := by
  obtain ⟨text, trace, -, htext⟩ := analysed_eq_ok_iff.1 h
  exact Analysis.exists_parameter htext

/-- The report is there in both forms, and tells the same about the outcome. -/
theorem exists_outcome_of_analysed {input : Option String} {a : Analysis}
    (h : analysed sources input = .ok a) :
    ∃ r, a.outcomeReport = .ok r ∧ ∀ verbose,
      a.report verbose = .ok (reported sources input verbose) ∧
        (reported sources input verbose).SameOutcome r := by
  obtain ⟨name, hname, -⟩ := exists_parameter_of_analysed h
  obtain ⟨r, houtcome⟩ := Analysis.exists_outcomeReport hname
  refine ⟨r, houtcome, fun verbose => ?_⟩
  obtain ⟨r', hr', hsame⟩ := Analysis.exists_report houtcome verbose
  have hreported : reported sources input verbose = r' := by
    rw [reported, h]
    simp only [hr']
  rw [hreported]
  exact ⟨hr', hsame⟩

/-- The analysis comes first, whatever form of report is asked for. -/
theorem analyse_eq (options : Options) (sources : Sources) :
    analyse options sources = (analysed sources options.input).bind fun a =>
      (a.render options).map fun rendered => (rendered, a.isSuccess) := by
  unfold analyse analysed
  cases sources.read options.input with
  | error e => rfl
  | ok text =>
      cases htext : Analysis.ofText text with
      | error e => simp [htext, Except.bind]
      | ok p =>
          simp only [htext, Except.bind]
          cases p.1.render options <;> rfl

theorem run_of_error {e : AnalysisFault} (h : analysed sources options.input = .error e) :
    run options sources =
      if options.json then
        ⟨1, (reported sources options.input options.verbose).toJson.compact ++ "\n", ""⟩
      else ⟨1, "", "Error: " ++ e.message ++ "\n"⟩ := by
  rw [run, analyse_eq, reported, h]
  rfl

theorem run_of_ok {a : Analysis} (h : analysed sources options.input = .ok a) :
    ∃ text, a.textReport options.verbose = .ok text ∧
      run options sources = ⟨if a.isSuccess then 0 else 1,
        (if options.json then (reported sources options.input options.verbose).toJson.pretty 0
          else text) ++ "\n", ""⟩ := by
  obtain ⟨name, hname, -⟩ := exists_parameter_of_analysed h
  obtain ⟨text, htext⟩ := Analysis.exists_textReport hname options.verbose
  obtain ⟨r, -, hreport⟩ := exists_outcome_of_analysed h
  have hrender : a.render options = .ok (if options.json then
      (reported sources options.input options.verbose).toJson.pretty 0 else text) := by
    rw [Analysis.render, (hreport options.verbose).1, htext]
    cases options.json <;> rfl
  refine ⟨text, htext, ?_⟩
  simp only [run, analyse_eq, h, Except.bind, hrender, Except.map]

theorem code_run (options : Options) (sources : Sources) :
    (run options sources).code =
      if (analysed sources options.input).toOption.any Analysis.isSuccess then 0 else 1 := by
  cases h : analysed sources options.input with
  | error e =>
      rw [run_of_error h]
      cases options.json <;> rfl
  | ok a =>
      obtain ⟨text, -, hrun⟩ := run_of_ok h
      rw [hrun]
      rfl

theorem ok_reported (input : Option String) (verbose : Bool) :
    (reported sources input verbose).ok =
      (analysed sources input).toOption.any Analysis.isSuccess := by
  cases h : analysed sources input with
  | error e =>
      rw [reported, h]
      rfl
  | ok a =>
      obtain ⟨r, houtcome, hreport⟩ := exists_outcome_of_analysed h
      exact (hreport verbose).2.ok.trans (Analysis.ok_outcomeReport houtcome)

theorem sameOutcome_reported (input : Option String) (verbose verbose' : Bool) :
    (reported sources input verbose).SameOutcome (reported sources input verbose') := by
  cases h : analysed sources input with
  | error e =>
      simp only [reported, h]
      exact ⟨rfl, rfl, rfl, rfl, rfl⟩
  | ok a =>
      obtain ⟨r, -, hreport⟩ := exists_outcome_of_analysed h
      exact (hreport verbose).2.trans_symm (hreport verbose').2

theorem any_isSuccess_iff (input : Option String) :
    (analysed sources input).toOption.any Analysis.isSuccess = true ↔
      ∃ text r search, sources.read input = .ok text ∧ Recurrence.parse text = .ok r ∧
        r.dominantRoot = .ok search ∧ search.result ≠ .infeasible := by
  have hsuccess (a : Analysis) : a.isSuccess = true ↔ a.root ≠ .infeasible := by
    cases hroot : a.root <;> simp [Analysis.isSuccess, hroot, Root.isInfeasible]
  constructor
  · intro h
    cases hanalysed : analysed sources input with
    | error e => simp [hanalysed, Except.toOption] at h
    | ok a =>
        obtain ⟨text, trace, hread, htext⟩ := analysed_eq_ok_iff.1 hanalysed
        obtain ⟨r, search, hparse, hsearch, rfl, -⟩ := Analysis.ofText_eq_ok_iff.1 htext
        rw [hanalysed] at h
        exact ⟨text, r, search, hread, hparse, hsearch, (hsuccess _).1 h⟩
  · rintro ⟨text, r, search, hread, hparse, hsearch, hresult⟩
    have htext := Analysis.ofText_eq_ok_iff.2 ⟨r, search, hparse, hsearch, rfl, rfl⟩
    rw [analysed_eq_ok_iff.2 ⟨text, search.events, hread, htext⟩]
    exact (hsuccess _).2 hresult

/-- With JSON nothing but the report is written. -/
theorem run_of_json (sources : Sources) (hjson : options.json = true) :
    (run options sources).errors = "" ∧
      (reported sources options.input options.verbose).IsWritten (run options sources).output := by
  cases h : analysed sources options.input with
  | error e =>
      rw [run_of_error h, if_pos hjson]
      exact ⟨rfl, .inl rfl⟩
  | ok a =>
      obtain ⟨text, -, hrun⟩ := run_of_ok h
      rw [hrun, if_pos hjson]
      exact ⟨rfl, .inr rfl⟩

theorem asymptotics_reported {input : Option String} {a : Analysis} {x : Float} {name : String}
    (h : analysed sources input = .ok a) (hname : a.recurrence.parameters = [name])
    (hroot : a.root = .finite x) (verbose : Bool) :
    (reported sources input verbose).asymptotics = some (a.root.growthOrder name) := by
  obtain ⟨r, houtcome, hreport⟩ := exists_outcome_of_analysed h
  exact (hreport verbose).2.asymptotics.trans
    (Analysis.asymptotics_outcomeReport hname hroot houtcome)

end

/-! ## Agreement -/

/-- The runs on the same input agree, whatever the options ask for. -/
structure Agreement (sources : Sources) : Prop where
  /-- The exit code depends on the input alone. -/
  code : ∀ options options' : Options, options.input = options'.input →
    (run options sources).code = (run options' sources).code
  /-- It is 0 exactly if the input was read, parsed and solved, and not to no root. -/
  code_eq_zero_iff : ∀ options, (run options sources).code = 0 ↔
    ∃ text r search, sources.read options.input = .ok text ∧ Recurrence.parse text = .ok r ∧
      r.dominantRoot = .ok search ∧ search.result ≠ .infeasible
  /-- With JSON one report is all that is written.  It can be read off its text, but for a root that
  is not finite, and it tells the exit code. -/
  json : ∀ options, options.json = true →
    (run options sources).errors = "" ∧
      (reported sources options.input options.verbose).IsWritten (run options sources).output ∧
      ∀ report : Report, report.IsWritten (run options sources).output →
        report.SameReading (reported sources options.input options.verbose) ∧
          ((∀ p ∈ (reported sources options.input options.verbose).root, p.2.isFinite = true) →
            report.SameOutcome (reported sources options.input options.verbose)) ∧
          (report.ok = true ↔ (run options sources).code = 0)
  /-- Without JSON either the output or the error stream is written, the latter exactly if there is
  nothing to report. -/
  text : ∀ options, options.json = false →
    ((run options sources).errors ≠ "" ↔ (run options sources).output = "") ∧
      ((run options sources).errors ≠ "" ↔ ∃ fault, analysed sources options.input = .error fault)
  /-- A root is reported by its growth order, which is the single line of the short text. -/
  line : ∀ (input : Option String) (a : Analysis) (x : Float),
    analysed sources input = .ok a → a.root = .finite x →
      ∃ line, '\n' ∉ line.toList ∧
        (∀ verbose, (reported sources input verbose).asymptotics = some line) ∧
        ∀ options : Options, options.input = input → options.json = false →
          options.verbose = false → (run options sources).output = line ++ "\n"
  /-- The verbose report tells the same about the outcome as the short one. -/
  verbose : ∀ input verbose verbose',
    (reported sources input verbose).SameOutcome (reported sources input verbose')

/-- **Text and JSON runs agree**, for every input, on the exit code and on what they tell. -/
theorem run_agreement (sources : Sources) : Agreement sources where
  code options options' h := by
    rw [code_run, code_run, h]
  code_eq_zero_iff options := by
    rw [code_run, ← any_isSuccess_iff]
    split <;> simp_all
  json options hjson := by
    obtain ⟨herrors, hwritten⟩ := run_of_json sources hjson
    refine ⟨herrors, hwritten, fun report hreport => ?_⟩
    have hsame := Report.sameReading_of_isWritten hreport hwritten
    refine ⟨hsame, hsame.sameOutcome, ?_⟩
    rw [hsame.ok, ok_reported, code_run]
    split <;> simp_all
  text options hjson := by
    cases h : analysed sources options.input with
    | error e => simp [run_of_error h, hjson]
    | ok a =>
        obtain ⟨text, -, hrun⟩ := run_of_ok h
        simp [hrun, hjson]
  line input a x h hroot := by
    obtain ⟨name, hname, hvalid⟩ := exists_parameter_of_analysed h
    refine ⟨a.root.growthOrder name, Root.newline_not_mem_growthOrder hvalid _,
      asymptotics_reported h hname hroot, ?_⟩
    rintro options rfl hjson hverbose
    obtain ⟨line, hline, hrun⟩ := run_of_ok h
    rw [hverbose, Analysis.textReport_of_finite hname hroot] at hline
    simp [hrun, hjson, Except.ok.inj hline]
  verbose := sameOutcome_reported

-- the same failure with and without JSON
example : run ⟨some " ", false, false, false, "warn"⟩ ⟨.bytes .empty, fun _ => none⟩ =
    ⟨1, "", "Error: Empty input\n"⟩ := by
  decide +kernel

example : run ⟨some " ", false, true, false, "warn"⟩ ⟨.bytes .empty, fun _ => none⟩ =
    ⟨1, "\x7b\"ok\":false,\"error\":\"Empty input\"\x7d\n", ""⟩ := by
  decide +kernel

end GrowthOrder
