import FeatureFlags.Json.Cursor
import FeatureFlags.Json.Writer
import FeatureFlags.Text.Shown

/-!
# Why a value is no flag

`DecodeFault` lists the ways in which a JSON value can fail to be a flag, a state or metadata, and
`DecodeFault.message` words them. `Found` is what stood in the wrong place and `Expected` what
should have stood there.
-/

namespace FeatureFlags

/-- A value where another kind was expected. -/
inductive Found
  | null
  | bool (value : Bool)
  | num (value : Number)
  | str (value : String)
  | sequence
  | map

namespace Found

/-- What a value looks like to a complaint. -/
def ofJson : Json → Found
  | .null => .null
  | .bool b => .bool b
  | .num n => .num n
  | .str s => .str s
  | .arr _ => .sequence
  | .obj _ => .map

/-- The words for a value; containers are not shown. -/
def text : Found → String
  | .null => "null"
  | .bool b => "boolean `" ++ (if b then "true" else "false") ++ "`"
  | .num (.int n) => "integer `" ++ toString n ++ "`"
  | .num (.float x) => "floating point `" ++ x.text ++ "`"
  | .str s => "string " ++ Text.shown s
  | .sequence => "sequence"
  | .map => "map"

end Found

/-- What a complaint says was expected. -/
inductive Expected
  | map
  | string
  | unit
  | flag
  | flagFields
  | shorterArray
  | stateForm
  | stateWord
  | singleKey
  | section
  | document
  deriving DecidableEq

def Expected.text : Expected → String
  | .map => "a map"
  | .string => "a string"
  | .unit => "unit"
  | .flag => "struct FeatureFlag"
  | .flagFields => "struct FeatureFlag with 8 elements"
  | .shorterArray => "fewer elements in array"
  | .stateForm => "string or map"
  | .stateWord => "variant identifier"
  | .singleKey => "map with a single key"
  | .section => "a JSON object"
  | .document => "a flag configuration object"

/-- Why a value is not what it should be. -/
inductive DecodeFault
  | wrongType (found : Found) (expected : Expected)
  | wrongValue (found : Found) (expected : Expected)
  | wrongLength (length : Nat) (expected : Expected)
  | missingField (name : String)
  | repeatedField (name : String)
  | unknownState (word : String)
  | notScalar

def DecodeFault.message : DecodeFault → String
  | .wrongType found expected =>
    "invalid type: " ++ found.text ++ ", expected " ++ expected.text
  | .wrongValue found expected =>
    "invalid value: " ++ found.text ++ ", expected " ++ expected.text
  | .wrongLength length expected =>
    "invalid length " ++ toString length ++ ", expected " ++ expected.text
  | .missingField name => "missing field `" ++ name ++ "`"
  | .repeatedField name => "duplicate field `" ++ name ++ "`"
  | .unknownState word =>
    "unknown variant `" ++ word ++ "`, expected `ENABLED` or `DISABLED`"
  | .notScalar => "data did not match any variant of untagged enum MetadataValue"

end FeatureFlags
