import FeatureFlags.Document.ConfigError

/-!
# Diagnostics

A `Diagnostic` is one problem found in a configuration, kept as its cause; code, severity, pointer
and text follow from that. Only an evaluator that no flag uses is a mere warning.
-/

namespace FeatureFlags

inductive Severity
  | error
  | warning
  deriving DecidableEq

def Severity.word : Severity → String
  | .error => "error"
  | .warning => "warning"

/-- A problem in a configuration. -/
inductive Diagnostic
  | notJson (error : SyntaxError)
  | violation (violation : Violation)
  | unresolved (reference : Reference)
  | refused (error : ConfigError)
  | unused (evaluator : String)

namespace Diagnostic

def severity : Diagnostic → Severity
  | .unused _ => .warning
  | _ => .error

def codeOfError : ConfigError → String
  | .notJson _ => "E001"
  | .violations _ => "E002"
  | .unresolvedReference .. => "E003"
  | .repeatedKey .. => "E004"
  | .circularReference _ | .invalid .. => "E005"
  | .fileNotFound _ | .unreadable .. | .invalidSchema _ => "E000"

def code : Diagnostic → String
  | .notJson _ => "E001"
  | .violation _ => "E002"
  | .unresolved _ => "E003"
  | .refused e => codeOfError e
  | .unused _ => "W001"

/-- The pointer to a section; the document has the empty pointer. -/
def pointerToSection : Section → Pointer
  | .document => ""
  | s => Pointer.child "" s.name

/-- Where a refusal points. -/
def pointerOfError : ConfigError → Pointer
  | .unresolvedReference _ path => path
  | .repeatedKey part _ => pointerToSection part
  | .circularReference _ => pointerToSection .evaluators
  | .invalid path _ => path
  | _ => ""

def path : Diagnostic → Pointer
  | .notJson _ => ""
  | .violation v => v.path
  | .unresolved r => r.path
  | .refused e => pointerOfError e
  | .unused name => evaluatorPointer name

def message : Diagnostic → String
  | .notJson e => "syntax error: " ++ e.message
  | .violation v => v.message
  | .unresolved r => "unresolved reference \"" ++ r.name ++ "\""
  | .refused e => e.message
  | .unused name => "evaluator \"" ++ name ++ "\" is never referenced by a flag"

def isError (d : Diagnostic) : Bool :=
  d.severity == .error

def toJson (d : Diagnostic) : Json :=
  .obj [("severity", .str d.severity.word), ("code", .str d.code), ("path", .str d.path),
    ("message", .str d.message)]

end Diagnostic

end FeatureFlags
