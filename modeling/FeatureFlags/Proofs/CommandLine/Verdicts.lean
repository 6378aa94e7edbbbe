import FeatureFlags.Proofs.CommandLine.Lines
import FeatureFlags.Proofs.Lint.Counts
import FeatureFlags.Proofs.Lint.Rendering

/-!
# The commands agree

Parsing and validating a file exit with the code of the same refusal, and linting it with 1 where
these do not exit with 0. Whether linting succeeds is decided by the counts of its report; that is
the same as that no file fails (`passes_iff`), and so as that every file parses and, if linting is
strict, leaves no evaluator out of reach. Names that are no texts make an exception: a report that
has to be JSON cannot be written then, and linting exits with 2 whatever it found. A path that
begins with a hyphen has to stand behind `--`, or it is taken for an option.
-/

namespace FeatureFlags

namespace CommandLine

variable {fs : FileSystem} {file p : Path} {pretty json strict quiet : Bool} {format : String}

/-- The exit code for what a file is parsed to. -/
def codeOf : Except ConfigError FlagMap → Nat
  | .ok _ => 0
  | .error e => e.exitCode

theorem codeOf_eq_zero_iff {result : Except ConfigError FlagMap} :
    codeOf result = 0 ↔ ∃ m, result = .ok m := by
  cases result with
  | ok m => simp [codeOf]
  | error e => cases e <;> simp [codeOf, ConfigError.exitCode]

theorem exitCode_runParse :
    (runParse fs file none pretty false).exitCode = codeOf (fs.parseFile file) := by
  have same : (fs.loadText file).bind (parseWith bundledValidator
      { repeatedKeys := if false then .lastWins else .refuse }) = fs.parseFile file := rfl
  unfold runParse
  dsimp only
  rw [same]
  cases fs.parseFile file <;> rfl

theorem exitCode_runValidate :
    (runValidate fs file json).exitCode = codeOf (fs.parseFile file) := by
  unfold runValidate
  cases fs.parseFile file <;> cases json <;> rfl

/-- A report lets the program succeed if none of its files fails. -/
theorem passes_iff {r : Report} : passes r = true ↔ r.failed = 0 := by
  rw [Report.failed_eq_zero_iff_counts]
  cases strict : r.strict <;> simp [passes, Report.isOk, strict]

theorem exitCode_runLint (there : fs.pathExists p = true) :
    (runLint fs p format strict quiet).exitCode =
      if format = "json" ∧ (fs.lint p strict).isText = false then 2
      else if (fs.lint p strict).failed = 0 then 0 else 1 := by
  unfold runLint
  rw [there, ← Report.isSome_toJson? (fs.lint p strict)]
  by_cases json : format = "json"
  · cases rendered : (fs.lint p strict).toJson? <;> simp [json, rendered, passes_iff]
  · simp [json, passes_iff]

end CommandLine

namespace FileSystem

variable {fs : FileSystem} {p : Path}

/-- The path of a file leads to its location. -/
theorem exists_location_of_isFile (h : fs.isFile p = true) : ∃ links location id,
    fs.resolve p = .ok (links, location) ∧ fs.entry? location = some (.file id) := by
  unfold isFile lookup at h
  cases resolved : fs.resolve p with
  | error fault => simp [resolved] at h
  | ok found =>
    obtain ⟨links, location⟩ := found
    simp only [resolved] at h
    cases there : fs.entry? location with
    | none => simp [there] at h
    | some e =>
      cases e with
      | file id => exact ⟨links, location, id, rfl, there⟩
      | link | dir => simp [there] at h

theorem ne_empty_of_pathExists (h : fs.pathExists p = true) : p ≠ "" := by
  rintro rfl
  simp [pathExists, lookup, resolve, Except.toBool] at h

theorem pathExists_of_isFile (h : fs.isFile p = true) : fs.pathExists p = true := by
  obtain ⟨links, location, id, resolved, there⟩ := exists_location_of_isFile h
  simp [pathExists, lookup, resolved, there, Except.toBool]

/-- A file that is named so is the only configuration file that its path stands for. -/
theorem configFiles_of_isFile (h : fs.isFile p = true) (named : p.isJson = true) :
    fs.configFiles p = [p] := by
  obtain ⟨links, location, id, resolved, there⟩ := exists_location_of_isFile h
  simp [configFiles, resolved, there, Path.ifJson, named]

/-- The report on a file can be JSON if its path is a text. -/
theorem isText_lint_of_isFile (h : fs.isFile p = true) (named : p.isJson = true) (strict : Bool) :
    (fs.lint p strict).isText = p.isText := by
  simp [Report.isText, lint, configFiles_of_isFile h named, lintFile, Path.relativeTo_self]

end FileSystem

open CommandLine in
/-- On a file with the extension `json`, parsing and validating exit with the same code in every
form, and linting with 0 where they do and with 1 where they do not, unless the report has to be
JSON and the path is no text: then linting exits with 2. On any path there is, linting exits with 2
if the report has to be JSON and one of its paths is no text, and else succeeds if and only if no
file counts as failed, which is so if every file below parses and, if it is strict, leaves no
evaluator out of the reach of its flags. Files either pass or fail. A path is read as such behind
`--`, and without it unless it begins with a hyphen. -/
theorem commands_agree (fs : FileSystem) (p : Path) :
    (fs.isFile p = true → p.isJson = true → ∃ code,
      (∀ pretty, (runCommand fs (.parse p none pretty false)).exitCode = code) ∧
      (∀ json, (runCommand fs (.validate p json)).exitCode = code) ∧
      ∀ format quiet, (runCommand fs (.lint p format false quiet)).exitCode =
        if format = "json" ∧ p.isText = false then 2 else if code = 0 then 0 else 1) ∧
    (fs.pathExists p = true → ∀ format strict quiet,
      ((runCommand fs (.lint p format strict quiet)).exitCode =
        if format = "json" ∧ (fs.lint p strict).isText = false then 2
        else if (fs.lint p strict).failed = 0 then 0 else 1) ∧
      ((fs.lint p strict).failed = 0 ↔ ∀ file ∈ fs.configFiles p,
        (∃ m, fs.parseFile file = .ok m) ∧ (strict = true → fs.EvaluatorsReached file))) ∧
    (∀ strict, (fs.lint p strict).passed + (fs.lint p strict).failed =
        (fs.lint p strict).filesChecked ∧
      (fs.lint p strict).filesChecked = (fs.lint p strict).results.length ∧
      (fs.lint p strict).filesChecked = (fs.configFiles p).length) ∧
    (fs.pathExists p = true →
      (∀ l ∈ lines ["--", p] p, run fs l.1 = runCommand fs l.2) ∧
      (p.bytes.head? ≠ some Command.hyphen → ∀ l ∈ lines [p] p, run fs l.1 = runCommand fs l.2)) := by
  refine ⟨fun regular named => ⟨codeOf (fs.parseFile p), ?_, ?_, ?_⟩, fun there => ?_,
    fun strict => ?_, fun there => ?_⟩
  · exact fun pretty => exitCode_runParse
  · exact fun json => exitCode_runValidate
  · intro format quiet
    have agree : (fs.lint p false).failed = 0 ↔ codeOf (fs.parseFile p) = 0 := by
      rw [FileSystem.lint_failed_eq_zero_iff, FileSystem.configFiles_of_isFile regular named,
        codeOf_eq_zero_iff]
      simp
    simp only [runCommand, exitCode_runLint (FileSystem.pathExists_of_isFile regular), agree,
      FileSystem.isText_lint_of_isFile regular named]
  · exact fun format strict quiet => ⟨exitCode_runLint there, FileSystem.lint_failed_eq_zero_iff⟩
  · exact ⟨Report.passed_add_failed, rfl, List.length_map _⟩
  · have written := FileSystem.ne_empty_of_pathExists there
    exact ⟨run_lines (readArguments_escape written),
      fun plain => run_lines (readArguments_path written plain)⟩

/-- A file with an evaluator that no flag uses. -/
def spareFiles : FileSystem :=
  { root := .dir true [("spare.json", .file 0)]
    files := fun _ =>
      { content := "\x7b\"flags\":\x7b\x7d,\"$evaluators\":\x7b\"e\":1\x7d\x7d".toUTF8 } }

open CommandLine in
/-- The file is accepted, except by strict linting. -/
theorem spareFiles_agree :
    (∀ pretty, (runCommand spareFiles (.parse "spare.json" none pretty false)).exitCode = 0) ∧
    (∀ json, (runCommand spareFiles (.validate "spare.json" json)).exitCode = 0) ∧
    (run spareFiles ["lint", "--format", "json", "spare.json"]).exitCode = 0 ∧
    (runCommand spareFiles (.lint "spare.json" "text" true true)).exitCode = 1 ∧
    ¬ spareFiles.EvaluatorsReached "spare.json" := by
  have regular : spareFiles.isFile "spare.json" = true ∧ Path.isJson "spare.json" = true := by
    decide +kernel
  have there : spareFiles.pathExists "spare.json" = true := by decide +kernel
  have counted : (spareFiles.lint "spare.json" false).failed = 0 ∧
      (spareFiles.lint "spare.json" true).failed = 1 := by
    decide +kernel
  obtain ⟨file, report, -, read⟩ := commands_agree spareFiles "spare.json"
  obtain ⟨code, parses, validates, lints⟩ := file regular.1 regular.2
  have lenient := report there "json" false false
  have strict := report there "text" true true
  have exits : (runCommand spareFiles (.lint "spare.json" "json" false false)).exitCode = 0 := by
    rw [lenient.1, counted.1]
    decide +kernel
  obtain rfl : code = 0 := by
    simpa [lints] using exits
  have line := (read there).2 (by decide +kernel) (["lint", "--format", "json", "spare.json"],
    .lint "spare.json" "json" false false) (by decide +kernel)
  have failed : (spareFiles.lint "spare.json" true).failed ≠ 0 := by simp [counted.2]
  refine ⟨parses, validates, line ▸ exits, by simp [strict.1, failed], fun reached => ?_⟩
  refine failed (strict.2.2 fun file hf => ⟨(lenient.2.1 counted.1 file hf).1, fun _ => ?_⟩)
  rw [FileSystem.configFiles_of_isFile regular.1 regular.2, List.mem_singleton] at hf
  exact hf ▸ reached

/-- A name that is no text: its first byte begins no character. -/
def rawName : RawText :=
  ⟨0xFF :: (RawText.ofText ".json").bytes⟩

/-- Two good configurations, one under a name that is no text and one under a name that looks like an
option. -/
def rawNames : FileSystem :=
  { root := .dir true [(rawName, .file 0), ("-x.json", .file 1)]
    files := fun _ => { content := "\x7b\"flags\":\x7b\x7d\x7d".toUTF8 } }

open CommandLine in
/-- The commands do not agree on these files: linting cannot write the one name as JSON, although no
file failed, and takes the other for options, with the same exit code as parsing. -/
theorem rawNames_disagree :
    (∀ p ∈ [rawName, .ofText "-x.json"], rawNames.isFile p = true ∧ Path.isJson p = true) ∧
    (¬ ∃ code, (run rawNames ["parse", rawName]).exitCode = code ∧
      (run rawNames ["lint", rawName, "--format", "json"]).exitCode = if code = 0 then 0 else 1) ∧
    ¬ ((run rawNames ["lint", rawName, "--format", "json"]).exitCode = 0 ↔
      (rawNames.lint rawName false).failed = 0) ∧
    ¬ ∃ code, (run rawNames ["parse", "-x.json"]).exitCode = code ∧
      (run rawNames ["lint", "-x.json"]).exitCode = if code = 0 then 0 else 1 := by
  have parsed : (run rawNames ["parse", rawName]).exitCode = 0 ∧
      (run rawNames ["parse", "-x.json"]).exitCode = 2 := by
    decide +kernel
  have linted : (run rawNames ["lint", rawName, "--format", "json"]).exitCode = 2 ∧
      (run rawNames ["lint", "-x.json"]).exitCode = 2 := by
    decide +kernel
  have counted : (rawNames.lint rawName false).failed = 0 := by decide +kernel
  refine ⟨by decide +kernel, ?_, ?_, ?_⟩
  · simp [parsed.1, linted.1]
  · simp [linted.1, counted]
  · simp [parsed.2, linted.2]

end FeatureFlags
