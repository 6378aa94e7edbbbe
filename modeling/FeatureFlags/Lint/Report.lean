import FeatureFlags.Document.Load
import FeatureFlags.Files.Collect
import FeatureFlags.Lint.Check

/-!
# Reports on files

A `FileReport` holds the problems of one file and a `Report` those of every file below a path;
counts and verdicts are read off them. A file with warnings only counts as failed when the report
is strict. A report is JSON only if every path in it is a text.
-/

namespace FeatureFlags

inductive FileStatus
  | ok
  | error
  | warning
  deriving DecidableEq

def FileStatus.word : FileStatus → String
  | .ok => "ok"
  | .error => "error"
  | .warning => "warning"

structure FileReport where
  file : Path
  diagnostics : List Diagnostic

namespace FileReport

def errors (r : FileReport) : Nat :=
  r.diagnostics.countP (·.isError)

def warnings (r : FileReport) : Nat :=
  r.diagnostics.countP (!·.isError)

/-- The worst severity decides. -/
def status (r : FileReport) : FileStatus :=
  if r.diagnostics.any (·.isError) then .error
  else if r.diagnostics.isEmpty then .ok
  else .warning

/-- Whether the file counts as failed. -/
def fails (strict : Bool) (r : FileReport) : Bool :=
  if strict then r.status != .ok else r.status == .error

/-- The report as JSON, if the name of the file is a text. -/
def toJson? (r : FileReport) : Option Json :=
  r.file.text?.map fun file =>
    .obj ([("file", .str file), ("status", .str r.status.word)]
      ++ if r.diagnostics.isEmpty then []
        else [("diagnostics", .arr (r.diagnostics.map Diagnostic.toJson))])

end FileReport

/-- The problems of all files below a path. -/
structure Report where
  path : Path
  strict : Bool
  results : List FileReport

namespace Report

def filesChecked (r : Report) : Nat := r.results.length

def failed (r : Report) : Nat := r.results.countP (·.fails r.strict)

def passed (r : Report) : Nat := r.filesChecked - r.failed

def errors (r : Report) : Nat :=
  r.results.foldr (fun file n => file.errors + n) 0

def warnings (r : Report) : Nat :=
  r.results.foldr (fun file n => file.warnings + n) 0

def isOk (r : Report) : Bool := r.errors == 0

/-- A number in a report. -/
def count (n : Nat) : Json := .num (.int n)

/-- The report as JSON, if the path and the names of the files are texts. -/
def toJson? (r : Report) : Option Json := do
  let path ← r.path.text?
  let results ← r.results.mapM FileReport.toJson?
  return .obj [("path", .str path), ("files_checked", count r.filesChecked),
    ("passed", count r.passed), ("failed", count r.failed), ("errors", count r.errors),
    ("warnings", count r.warnings), ("results", .arr results)]

end Report

namespace FileSystem

/-- The problems of a file, which is named as seen from `base`. -/
def lintFile (fs : FileSystem) (file base : Path) : FileReport :=
  { file := file.relativeTo base
    diagnostics := match fs.loadText file with
      | .ok text => FeatureFlags.lint text
      | .error e => [.refused e] }

/-- The problems of every configuration file that a path stands for. -/
def lint (fs : FileSystem) (p : Path) (strict : Bool) : Report :=
  { path := p, strict, results := (fs.configFiles p).map (fs.lintFile · p) }

end FileSystem

end FeatureFlags
