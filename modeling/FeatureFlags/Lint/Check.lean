import FeatureFlags.Document.Parse
import FeatureFlags.Lint.Diagnostic
import FeatureFlags.Reference.Reachable

/-!
# Checking a configuration for every problem

`lint` reports all violations of the schema, or else all references to unknown evaluators that a
flag can reach, together with the evaluators that none can. Only a text without such errors is
parsed in full, and then the first refusal is reported.
-/

namespace FeatureFlags

/-- The flags of a document as a value to look for references in. -/
def Json.flagReferences (document : Json) : List Reference :=
  match document.get? flagsKey with
  | some flags => flags.references (Pointer.child "" flagsKey)
  | none => []

/-- The references inside the evaluators in use, in the order of the evaluators. -/
def Members.usedReferences (evaluators : Members) (used : List String) : List Reference :=
  evaluators.flatMap fun (name, v) =>
    if used.contains name then v.references (evaluatorPointer name) else []

/-- The references to unknown evaluators, and the evaluators that are not in use. -/
def checkReferences (document : Json) (evaluators : Members) : List Diagnostic :=
  let roots := document.flagReferences
  let used := evaluators.reachable roots
  let unknown := (roots ++ evaluators.usedReferences used).filter fun r => !evaluators.has r.name
  let unused := evaluators.keys.filter fun name => !used.contains name
  unknown.map .unresolved ++ unused.map .unused

/-- The problems in a document that satisfies the schema, as `text` writes it. -/
def lintDocument (text : String) (document : Json) : List Diagnostic :=
  match document.evaluators? with
  | .error e => [.refused e]
  | .ok evaluators =>
    let found := checkReferences document evaluators
    -- parsing would only meet the first of the errors again
    if found.any (·.isError) then found
    else
      match parse text with
      | .ok _ => found
      | .error e => found ++ [.refused e]

/-- The problems in a text. -/
def lint (text : String) : List Diagnostic :=
  match Json.ofText? text with
  | .error e => [.notJson e]
  | .ok document =>
    match Bundled.schema.violations document with
    | [] => lintDocument text document
    | violations => violations.map .violation

end FeatureFlags
