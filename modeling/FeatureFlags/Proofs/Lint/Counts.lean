import FeatureFlags.Lint.Report
import FeatureFlags.Proofs.Lint.Unused

/-!
# What the counts of a report say

A report counts problems and files apart from each other. Both counts come to nothing for the same
reason: no file has an error or, if the report is strict, a warning. A file without errors is one
that parses (`lint_no_error_iff`), and a file without warnings besides one whose evaluators are all
in reach of its flags (`lint_eq_nil_iff`).
-/

namespace FeatureFlags

/-! ## One text -/

/-- Every evaluator of the document is in reach of one of its flags. -/
def Json.EvaluatorsReached (document : Json) : Prop :=
  ∀ evaluators flags, document.evaluators? = .ok evaluators → document.flags? = .ok flags →
    ∀ name, evaluators.has name = true → ∃ raw ∈ flags, evaluators.Reaches raw.2 name

section

variable {text : String}

theorem lint_no_error_iff :
    (∀ d ∈ lint text, d.isError = false) ↔ ∃ m, parse text = .ok m := by
  constructor
  · intro clean
    cases h : parse text with
    | ok m => exact ⟨m, rfl⟩
    | error e =>
      obtain ⟨d, hd, error⟩ := exists_error_of_refused h
      rw [clean d hd] at error
      cases error
  · rintro ⟨m, h⟩
    exact lint_no_error h

/-- There is nothing to report of an accepted text whose flags reach all evaluators. -/
theorem lint_eq_nil_iff : lint text = [] ↔ (∃ m, parse text = .ok m) ∧
    ∀ document, Json.ofText? text = .ok document → document.EvaluatorsReached := by
  constructor
  · intro silent
    have clean : ∀ d ∈ lint text, d.isError = false := by simp [silent]
    obtain ⟨m, h⟩ := lint_no_error_iff.1 clean
    refine ⟨⟨m, h⟩, fun document read evaluators flags he hf name known => ?_⟩
    obtain ⟨source, hs, valid, -, accepted⟩ := parse_eq_ok.1 h
    obtain ⟨source', hs', rfl⟩ := map_eq_ok.1 read
    obtain rfl := Except.ok.inj (hs.symm.trans hs')
    refine reaches_of_mem_reachable valid he hf accepted (Decidable.not_not.1 fun unused => ?_)
    have reported := (mem_lint_unused read valid he).2 ⟨known, unused⟩
    rw [silent] at reported
    cases reported
  · rintro ⟨⟨m, h⟩, reached⟩
    obtain ⟨document, evaluators, flags, accepted⟩ := accepted_of_parse h
    refine List.eq_nil_iff_forall_not_mem.2 fun d hd => ?_
    have warning := lint_no_error h d hd
    -- only an unused evaluator is no error
    cases d with
    | unused name =>
      obtain ⟨known, unused⟩ :=
        (mem_lint_unused accepted.read accepted.valid accepted.evaluators_eq).1 hd
      obtain ⟨raw, hr, reach⟩ :=
        reached document accepted.read _ _ accepted.evaluators_eq accepted.flags_eq name known
      exact not_reaches_of_not_mem_reachable (flags?_eq_ok.1 accepted.flags_eq) known unused raw hr
        reach
    | _ => cases warning

end

/-! ## One file -/

namespace FileReport

variable {r : FileReport} {strict : Bool}

theorem errors_eq_zero_iff : r.errors = 0 ↔ ∀ d ∈ r.diagnostics, d.isError = false := by
  simp [errors]

theorem warnings_eq_zero_iff : r.warnings = 0 ↔ ∀ d ∈ r.diagnostics, d.isError = true := by
  simp [warnings]

/-- Without errors and warnings there is nothing. -/
theorem diagnostics_eq_nil_iff : r.diagnostics = [] ↔ r.errors = 0 ∧ r.warnings = 0 := by
  rw [errors_eq_zero_iff, warnings_eq_zero_iff]
  constructor
  · intro none
    simp [none]
  · rintro ⟨clean, silent⟩
    refine List.eq_nil_iff_forall_not_mem.2 fun d hd => ?_
    have both := (clean d hd).symm.trans (silent d hd)
    cases both

theorem status_eq_error_iff : r.status = .error ↔ r.errors ≠ 0 := by
  have some_error : r.diagnostics.any (·.isError) = true ↔ r.errors ≠ 0 := by
    rw [ne_eq, errors_eq_zero_iff]
    simp
  rw [← some_error, status]
  cases r.diagnostics.any (·.isError) with
  | true => simp
  | false => cases r.diagnostics.isEmpty <;> simp

theorem status_eq_ok_iff : r.status = .ok ↔ r.diagnostics = [] := by
  unfold status
  cases r.diagnostics with
  | nil => simp
  | cons d more => cases (d :: more).any (·.isError) <;> simp

/-- A file passes without errors and, in a strict report, without warnings. -/
theorem fails_eq_false_iff :
    r.fails strict = false ↔ r.errors = 0 ∧ (strict = true → r.warnings = 0) := by
  cases strict with
  | false => simp [fails, status_eq_error_iff]
  | true => simp [fails, status_eq_ok_iff, diagnostics_eq_nil_iff]

end FileReport

namespace FileSystem

variable {fs : FileSystem} {file base : Path} {strict : Bool}

/-- Every evaluator in a file is in reach of one of its flags. -/
def EvaluatorsReached (fs : FileSystem) (file : Path) : Prop :=
  ∀ document, fs.loadDocument file = .ok document → document.EvaluatorsReached

/-- A file passes if it parses and, in a strict report, its flags reach all evaluators. -/
theorem lintFile_fails_eq_false_iff : (fs.lintFile file base).fails strict = false ↔
    (∃ m, fs.parseFile file = .ok m) ∧ (strict = true → fs.EvaluatorsReached file) := by
  have passes : (fs.lintFile file base).fails strict = false ↔
      (∀ d ∈ (fs.lintFile file base).diagnostics, d.isError = false) ∧
        (strict = true → (fs.lintFile file base).diagnostics = []) := by
    rw [FileReport.fails_eq_false_iff, FileReport.diagnostics_eq_nil_iff,
      ← FileReport.errors_eq_zero_iff]
    exact and_congr_right fun clean => imp_congr_right fun _ => (and_iff_right clean).symm
  rw [passes]
  unfold lintFile parseFile EvaluatorsReached loadDocument
  cases fs.loadText file with
  | error e => simp [Diagnostic.isError, Diagnostic.severity, bind, Except.bind]
  | ok text =>
    dsimp only [bind, Except.bind]
    rw [lint_no_error_iff, lint_eq_nil_iff]
    simp only [mapError_eq_ok]
    exact and_congr_right fun accepted => imp_congr_right fun _ => and_iff_right accepted

end FileSystem

/-! ## All files -/

namespace Report

variable {r : Report}

theorem foldr_add_eq_zero_iff {α : Type} (f : α → Nat) (xs : List α) :
    xs.foldr (fun x n => f x + n) 0 = 0 ↔ ∀ x ∈ xs, f x = 0 := by
  induction xs with
  | nil => simp
  | cons x more ih => simp [ih]

theorem errors_eq_zero_iff : r.errors = 0 ↔ ∀ file ∈ r.results, file.errors = 0 :=
  foldr_add_eq_zero_iff _ _

theorem warnings_eq_zero_iff : r.warnings = 0 ↔ ∀ file ∈ r.results, file.warnings = 0 :=
  foldr_add_eq_zero_iff _ _

theorem failed_eq_zero_iff : r.failed = 0 ↔ ∀ file ∈ r.results, file.fails r.strict = false := by
  simp [failed]

/-- No file fails if there is no error and, if the report is strict, no warning. -/
theorem failed_eq_zero_iff_counts :
    r.failed = 0 ↔ r.errors = 0 ∧ (r.strict = true → r.warnings = 0) := by
  simp only [failed_eq_zero_iff, FileReport.fails_eq_false_iff, errors_eq_zero_iff,
    warnings_eq_zero_iff]
  exact ⟨fun h => ⟨fun file hf => (h file hf).1, fun strict file hf => (h file hf).2 strict⟩,
    fun h file hf => ⟨h.1 file hf, fun strict => h.2 strict file hf⟩⟩

theorem failed_le_filesChecked : r.failed ≤ r.filesChecked :=
  List.countP_le_length

theorem passed_add_failed : r.passed + r.failed = r.filesChecked :=
  Nat.sub_add_cancel failed_le_filesChecked

end Report

/-- No file below a path fails if all of them parse and, in a strict report, have no evaluators out
of the reach of their flags. -/
theorem FileSystem.lint_failed_eq_zero_iff {fs : FileSystem} {p : Path} {strict : Bool} :
    (fs.lint p strict).failed = 0 ↔ ∀ file ∈ fs.configFiles p,
      (∃ m, fs.parseFile file = .ok m) ∧ (strict = true → fs.EvaluatorsReached file) := by
  simp only [Report.failed_eq_zero_iff, lint, List.forall_mem_map, lintFile_fails_eq_false_iff]

end FeatureFlags
