import FeatureFlags.CommandLine.Arguments
import FeatureFlags.Lint.Report

/-!
# Running a command

`run` gives what a command line does to a file system: the exit code, the texts on the two output
streams, and the file system afterwards. Parsing and validating exit with the code of the refusal.
Linting exits with 1 if a file fails, and with 2 if there is nothing under the path or the report
cannot be written as JSON. A command line that makes no command exits with 2.
-/

namespace FeatureFlags

/-- What a command line does. -/
structure Outcome where
  exitCode : Nat
  stdout : String := ""
  stderr : String := ""
  files : FileSystem

namespace CommandLine

def program : String := "flagd-config"

def versionText : String := program ++ " 0.1.0\n"

def usage : String :=
  "Usage: " ++ program ++ " <COMMAND>\n\n"
    ++ "Commands:\n"
    ++ "  parse     Resolve all $ref markers and print the resulting flags as JSON\n"
    ++ "  validate  Check that a configuration parses, without printing it\n"
    ++ "  lint      Lint configuration files (syntax, schema, references, unused evaluators)\n"
    ++ "  help      Print this message or the help of the given subcommand(s)\n"

/-- The complaint about a refused configuration. -/
def complaint : ConfigError → String
  | .violations vs =>
    "Validation failed:\n" ++ String.join (vs.map fun v => "  " ++ v.display ++ "\n")
  | e => "Error: " ++ e.message ++ "\n"

/-- The flags could not be written under a path. -/
def cannotWrite (fs : FileSystem) (path : Path) (fault : FileFault) : Outcome :=
  { exitCode := 3
    stderr := "Error writing to " ++ path.shown ++ ": " ++ fault.message ++ "\n"
    files := fs }

/-- Parses a file and writes the flags. -/
def runParse (fs : FileSystem) (file : Path) (output? : Option Path)
    (pretty allowRepeatedKeys : Bool) : Outcome :=
  let options : Options :=
    { repeatedKeys := if allowRepeatedKeys then .lastWins else .refuse }
  match (fs.loadText file).bind (parseWith bundledValidator options) with
  | .error e => { exitCode := e.exitCode, stderr := complaint e, files := fs }
  | .ok flags =>
    let text := if pretty then flags.toJson.pretty else flags.toJson.compact
    match output? with
    | none => { exitCode := 0, stdout := text ++ "\n", files := fs }
    | some path =>
      match fs.writeText path text with
      | .ok fs => { exitCode := 0, files := fs }
      | .error fault => cannotWrite fs path fault

def violationJson (v : Violation) : Json :=
  .obj [("path", .str v.path), ("message", .str v.message)]

/-- The verdict on a file as JSON. -/
def verdictJson : Except ConfigError FlagMap → Json
  | .ok flags => .obj [("valid", .bool true), ("flags", .num (.int flags.size))]
  | .error (.violations vs) =>
    .obj [("valid", .bool false), ("errors", .arr (vs.map violationJson))]
  | .error e => .obj [("valid", .bool false), ("error", .str e.message)]

/-- Parses a file and tells whether that went well. -/
def runValidate (fs : FileSystem) (file : Path) (json : Bool) : Outcome :=
  let result := fs.parseFile file
  let exitCode := match result with
    | .ok _ => 0
    | .error e => e.exitCode
  if json then { exitCode, stdout := (verdictJson result).compact ++ "\n", files := fs }
  else
    match result with
    | .ok flags =>
      { exitCode, stdout := "Valid (" ++ toString flags.size ++ " flags)\n", files := fs }
    | .error e => { exitCode, stderr := complaint e, files := fs }

inductive Colour
  | red | green | yellow

/-- The control sequence that starts a colour. -/
def Colour.start : Colour → String
  | .red => "\x1b[31m"
  | .green => "\x1b[32m"
  | .yellow => "\x1b[33m"

def coloured (c : Colour) (text : String) : String :=
  c.start ++ text ++ "\x1b[0m"

/-- The mark of a status, four characters wide. -/
def markOf : FileStatus → String
  | .ok => coloured .green "ok  "
  | .warning => coloured .yellow "warn"
  | .error => coloured .red "FAIL"

def diagnosticLine (d : Diagnostic) : String :=
  "       " ++ coloured (if d.isError then .red else .yellow) d.code ++ " "
    ++ (if d.path.isEmpty then "/" else d.path) ++ ": " ++ d.message ++ "\n"

/-- The lines of a file. A quiet report leaves out files without problems, and warnings. -/
def fileLines (quiet : Bool) (r : FileReport) : String :=
  if quiet && r.status == .ok then ""
  else
    "  " ++ markOf r.status ++ " " ++ r.file.shown ++ "\n"
      ++ String.join ((r.diagnostics.filter fun d => !quiet || d.isError).map diagnosticLine)

/-- Whether a report lets the program succeed: no errors and, if it is strict, no warnings. -/
def passes (r : Report) : Bool :=
  r.isOk && (!r.strict || r.warnings == 0)

def summary (r : Report) : String :=
  if passes r then
    coloured .green (toString r.filesChecked ++ " files checked, all passed") ++ "\n"
  else
    coloured .red (toString r.filesChecked ++ " files checked: " ++ toString r.passed
      ++ " passed, " ++ toString r.failed ++ " failed (" ++ toString r.errors ++ " errors, "
      ++ toString r.warnings ++ " warnings)") ++ "\n"

def reportText (quiet : Bool) (r : Report) : String :=
  (if quiet then "" else "Linting " ++ r.path.shown ++ " ...\n\n")
    ++ String.join (r.results.map (fileLines quiet)) ++ "\n" ++ summary r

/-- A report is no JSON because of a path that is no text. -/
def notRendered : String :=
  "Error serializing output: path contains invalid UTF-8 characters\n"

/-- Lints everything that a path stands for. -/
def runLint (fs : FileSystem) (path : Path) (format : String) (strict quiet : Bool) : Outcome :=
  if !fs.pathExists path then
    { exitCode := 2, stderr := "Error: path not found: " ++ path.shown ++ "\n", files := fs }
  else
    let report := fs.lint path strict
    let exitCode := if passes report then 0 else 1
    if format = "json" then
      match report.toJson? with
      | some json => { exitCode, stdout := json.pretty ++ "\n", files := fs }
      | none => { exitCode := 2, stderr := notRendered, files := fs }
    else { exitCode, stdout := reportText quiet report, files := fs }

def runCommand (fs : FileSystem) : Command → Outcome
  | .parse file output? pretty allowRepeatedKeys =>
    runParse fs file output? pretty allowRepeatedKeys
  | .validate file json => runValidate fs file json
  | .lint path format strict quiet => runLint fs path format strict quiet
  | .help => { exitCode := 0, stdout := usage, files := fs }
  | .version => { exitCode := 0, stdout := versionText, files := fs }

/-- Runs a command line. -/
def run (fs : FileSystem) (args : List RawText) : Outcome :=
  match Command.ofArguments? args with
  | some command => runCommand fs command
  | none => { exitCode := 2, stderr := usage, files := fs }

end CommandLine

end FeatureFlags
