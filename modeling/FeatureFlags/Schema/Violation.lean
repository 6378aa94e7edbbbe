import FeatureFlags.Json.Pointer
import FeatureFlags.Json.Writer

/-!
# Violations

A `Violation` says where a document breaks a rule and which one: the `Complaint` keeps the value
found and what the rule asks for, and `Complaint.message` words it, quoting values as compact JSON.
-/

namespace FeatureFlags

/-- The types that a rule can ask for, in the order of their names. -/
inductive TypeName
  | array | boolean | integer | null | number | object | string
  deriving DecidableEq

namespace TypeName

/-- All types, in the order of their names. -/
def all : List TypeName :=
  [.array, .boolean, .integer, .null, .number, .object, .string]

def name : TypeName → String
  | .array => "array"
  | .boolean => "boolean"
  | .integer => "integer"
  | .null => "null"
  | .number => "number"
  | .object => "object"
  | .string => "string"

def ofName? (name : String) : Option TypeName :=
  all.find? (·.name == name)

/-- Whether a value has the type. An integer is a number without a fractional part. -/
def admits : TypeName → Json → Bool
  | .array, .arr _ => true
  | .boolean, .bool _ => true
  | .integer, .num n => n.isIntegral
  | .null, .null => true
  | .number, .num _ => true
  | .object, .obj _ => true
  | .string, .str _ => true
  | _, _ => false

end TypeName

/-- The rule that a value breaks. -/
inductive Complaint
  | wrongType (found : Json) (types : List TypeName)
  | notAmong (found : Json) (options : List Json)
  | missing (key : String)
  | tooFewMembers (found : Json) (least : Nat)
  | unexpectedMembers (keys : List String)
  | forbidden (found : Json)
  | belowMinimum (found : Json) (least : Nat)
  | fitsNoAlternative (found : Json)
  | repeatedItems (found : Json)
  | other (message : String)

namespace Complaint

/-- Names in quotes, separated by commas. -/
def quoted (names : List String) : String :=
  ", ".intercalate (names.map fun name => "\"" ++ name ++ "\"")

def message : Complaint → String
  | .wrongType found [type] => found.compact ++ " is not of type \"" ++ type.name ++ "\""
  | .wrongType found types =>
    found.compact ++ " is not of types " ++ quoted ((TypeName.all.filter (· ∈ types)).map (·.name))
  | .notAmong found options => found.compact ++ " is not one of " ++ (Json.arr options).compact
  | .missing key => Json.quote key ++ " is a required property"
  | .tooFewMembers found least =>
    found.compact ++ " has less than " ++ toString least
      ++ (if least = 1 then " property" else " properties")
  | .unexpectedMembers keys =>
    "Additional properties are not allowed ("
      ++ ", ".intercalate (keys.map fun key => "'" ++ key ++ "'")
      ++ (if keys.length = 1 then " was" else " were") ++ " unexpected)"
  | .forbidden found => "False schema does not allow " ++ found.compact
  | .belowMinimum found least =>
    found.compact ++ " is less than the minimum of " ++ toString least
  | .fitsNoAlternative found =>
    found.compact ++ " is not valid under any of the schemas listed in the 'anyOf' keyword"
  | .repeatedItems found => found.compact ++ " has non-unique elements"
  | .other message => message

end Complaint

/-- A broken rule and the pointer to the value that breaks it. -/
structure Violation where
  path : Pointer
  complaint : Complaint

namespace Violation

def message (v : Violation) : String := v.complaint.message

/-- The text of a violation with its place. -/
def display (v : Violation) : String :=
  (if v.path.isEmpty then "(root)" else v.path) ++ ": " ++ v.message

end Violation

end FeatureFlags
