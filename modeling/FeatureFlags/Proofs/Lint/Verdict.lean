import FeatureFlags.Proofs.Lint.Counts

/-!
# The verdict of a report

`Report.isOk` looks at the errors of a report and `Report.failed` counts its failed files. Without
strictness they agree. A strict report counts a file with warnings as failed, but its verdict is
that of the same report without strictness: what it says is that every file parses, and it agrees
with the count if and only if the flags of the files reach all their evaluators once every file
does (`lint_isOk_iff`).
-/

namespace FeatureFlags

theorem Report.isOk_iff {r : Report} : r.isOk = true ↔ r.errors = 0 := by
  simp [isOk]

namespace FileSystem

variable {fs : FileSystem} {p : Path} {strict : Bool}

/-- Every file that a path stands for parses. -/
def AllParse (fs : FileSystem) (p : Path) : Prop :=
  ∀ file ∈ fs.configFiles p, ∃ m, fs.parseFile file = .ok m

/-- In every file that a path stands for, the flags reach all evaluators. -/
def AllReached (fs : FileSystem) (p : Path) : Prop :=
  ∀ file ∈ fs.configFiles p, fs.EvaluatorsReached file

/-- The files have no errors if and only if they all parse, however strict the report is. -/
theorem lint_errors_eq_zero_iff : (fs.lint p strict).errors = 0 ↔ fs.AllParse p := by
  have lenient : (fs.lint p false).failed = 0 ↔ (fs.lint p strict).errors = 0 := by
    rw [Report.failed_eq_zero_iff_counts]
    exact and_iff_left nofun
  rw [← lenient, lint_failed_eq_zero_iff]
  exact forall₂_congr fun _ _ => and_iff_left nofun

theorem lint_failed_iff : (fs.lint p strict).failed = 0 ↔
    fs.AllParse p ∧ (strict = true → fs.AllReached p) := by
  rw [lint_failed_eq_zero_iff]
  exact ⟨fun h => ⟨fun file hf => (h file hf).1, fun hs file hf => (h file hf).2 hs⟩,
    fun h file hf => ⟨h.1 file hf, fun hs => h.2 hs file hf⟩⟩

/-- The verdict says that every file parses. No file failed if the verdict is good and, in a strict
report, there are no warnings; so verdict and count disagree only in a strict report, when all files
parse and some flags leave an evaluator out of their reach. -/
theorem lint_isOk_iff (fs : FileSystem) (p : Path) (strict : Bool) :
    ((fs.lint p strict).isOk = true ↔ fs.AllParse p) ∧
    ((fs.lint p strict).failed = 0 ↔
      (fs.lint p strict).isOk = true ∧ (strict = true → (fs.lint p strict).warnings = 0)) ∧
    (((fs.lint p strict).isOk = true ↔ (fs.lint p strict).failed = 0) ↔
      (strict = true → fs.AllParse p → fs.AllReached p)) := by
  have verdict : (fs.lint p strict).isOk = true ↔ fs.AllParse p :=
    Report.isOk_iff.trans lint_errors_eq_zero_iff
  refine ⟨verdict, ?_, ?_⟩
  · rw [Report.isOk_iff]
    exact Report.failed_eq_zero_iff_counts
  · rw [verdict, lint_failed_iff]
    constructor
    · intro agree hs parse
      exact (agree.1 parse).2 hs
    · intro reached
      exact ⟨fun parse => ⟨parse, fun hs => reached hs parse⟩, And.left⟩

end FileSystem

/-- A file whose only evaluator no flag uses. -/
def spareEvaluator : FileSystem :=
  { root := .dir true [("a.json", .file 0)]
    files := fun _ =>
      { content := "\x7b\"flags\":\x7b\x7d,\"$evaluators\":\x7b\"e\":1\x7d\x7d".toUTF8 } }

/-- The one file failed, and the verdict of the strict report is good. -/
theorem spareEvaluator_verdict :
    ¬ ((spareEvaluator.lint "a.json" true).isOk = true ↔
      (spareEvaluator.lint "a.json" true).failed = 0) := by
  have verdict : (spareEvaluator.lint "a.json" true).isOk = true := by decide +kernel
  have counted : (spareEvaluator.lint "a.json" true).failed = 1 := by decide +kernel
  rw [verdict, counted]
  decide

end FeatureFlags
