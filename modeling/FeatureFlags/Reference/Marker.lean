import FeatureFlags.Json.Pointer

/-!
# Reference markers

An object whose only member is `$ref`, with a text, stands for the evaluator of that name.
`Marker.name?` reads one and says what is wrong with it, and `references` lists every marker
inside a value in document order, each with the pointer to it.
-/

namespace FeatureFlags

/-- The key of a marker. -/
def refKey : String := "$ref"

def flagsKey : String := "flags"

def evaluatorsKey : String := "$evaluators"

def metadataKey : String := "metadata"

/-- The pointer to an evaluator of a document. -/
def evaluatorPointer (name : String) : Pointer :=
  (Pointer.child "" evaluatorsKey).child name

inductive MarkerFault
  | siblings (keys : List String)
  | notText (kind : Kind)

def MarkerFault.message : MarkerFault → String
  | .siblings keys =>
    "reference marker must not have sibling keys, found: " ++ ", ".intercalate keys
  | .notText kind => "$ref must be a string, got " ++ kind.name

/-- Whether the members are those of a marker, well-formed or not. -/
def Members.isMarker (ms : Members) : Bool :=
  ms.has refKey

/-- The name in a marker: its only member's text. -/
def Members.markerName? (ms : Members) : Except MarkerFault String :=
  match ms with
  | [(_, .str name)] => .ok name
  | [(_, v)] => .error (.notText v.kind)
  | _ => .error (.siblings (ms.keys.filter (· != refKey)))

/-- A name with the pointer to the object that refers to it. -/
structure Reference where
  name : String
  path : Pointer
  deriving DecidableEq

namespace Json

/-- The reference that an object makes by itself: its `$ref`, if that is a text, whatever else the
object holds. -/
def ownReference (ms : Members) (path : Pointer) : List Reference :=
  match ms.get? refKey with
  | some (.str name) => [⟨name, path⟩]
  | _ => []

mutual

/-- The references inside a value at a pointer, in document order. -/
def references : Json → Pointer → List Reference
  | .obj ms, path => ownReference ms path ++ referencesInMembers ms path
  | .arr items, path => referencesInItems items path 0
  | _, _ => []

def referencesInItems : List Json → Pointer → Nat → List Reference
  | [], _, _ => []
  | v :: more, path, i => references v (path.item i) ++ referencesInItems more path (i + 1)

def referencesInMembers : List (String × Json) → Pointer → List Reference
  | [], _ => []
  | (k, v) :: more, path => references v (path.child k) ++ referencesInMembers more path

end

end Json

end FeatureFlags
