import FeatureFlags.Files.Fault
import FeatureFlags.Files.Path
import FeatureFlags.Flag.DecodeFault
import FeatureFlags.Json.Cursor
import FeatureFlags.Reference.Walk
import FeatureFlags.Schema.Validator

/-!
# Why a configuration is refused

`ConfigError` lists the causes, from a file that cannot be read to a flag that makes no sense.
`ConfigError.message` words them, and `ConfigError.exitCode` sorts them: 3 when there is nothing
to read, 2 when it is not JSON or no schema, 1 when the configuration itself is at fault.
-/

namespace FeatureFlags

/-- The parts of a document whose keys must not be repeated. -/
inductive Section
  | document | flags | evaluators
  deriving DecidableEq

def Section.name : Section → String
  | .document => "document"
  | .flags => flagsKey
  | .evaluators => evaluatorsKey

/-- What is wrong at a place of a configuration. -/
inductive ConfigFault
  | flagsNotObject
  | evaluatorsNotObject (kind : Kind)
  | reference (fault : MarkerFault)
  | tooLarge (name : String) (limit : Nat)
  | undecodable (fault : DecodeFault)
  | unreadableKeys (fault : DecodeFault) (position : Position)
  | unknownDefault (variant : String)

def ConfigFault.message : ConfigFault → String
  | .flagsNotObject => "expected an object of flag definitions"
  | .evaluatorsNotObject kind => "expected object, got " ++ kind.name
  | .reference fault => fault.message
  | .tooLarge name limit =>
    "expanding \"" ++ name ++ "\" exceeds the limit of " ++ toString limit ++ " resolved nodes"
  | .undecodable fault => fault.message
  | .unreadableKeys fault p => p.locate fault.message
  | .unknownDefault variant =>
    "default variant \"" ++ variant ++ "\" is not one of the flag's variations"

/-- Why a configuration is refused. -/
inductive ConfigError
  | fileNotFound (path : Path)
  | unreadable (path : Path) (fault : FileFault)
  | notJson (error : SyntaxError)
  | violations (violations : List Violation)
  | unresolvedReference (name : String) (path : Pointer)
  | circularReference (chain : List String)
  | repeatedKey (part : Section) (key : String)
  | invalid (path : Pointer) (fault : ConfigFault)
  | invalidSchema (fault : SchemaFault)

namespace ConfigError

/-- The refusal because of a reference. -/
def ofReferenceError : ReferenceError → ConfigError
  | .malformed path fault => .invalid path (.reference fault)
  | .unresolved name path => .unresolvedReference name path
  | .circular chain => .circularReference chain
  | .tooLarge name limit path => .invalid path (.tooLarge name limit)

def message : ConfigError → String
  | .fileNotFound path => "file not found: " ++ path.shown
  | .unreadable path fault => "cannot read " ++ path.shown ++ ": " ++ fault.message
  | .notJson e => "invalid JSON: " ++ e.message
  | .violations vs => "schema validation failed with " ++ toString vs.length ++ " error(s)"
  | .unresolvedReference name path =>
    "unresolved reference \"" ++ name ++ "\" at " ++ path ++ ": no such entry in $evaluators"
  | .circularReference chain => "circular evaluator reference: " ++ " -> ".intercalate chain
  | .repeatedKey part key => "duplicate key \"" ++ key ++ "\" in " ++ part.name
  | .invalid path fault => "invalid configuration at " ++ path ++ ": " ++ fault.message
  | .invalidSchema fault => "invalid schema: " ++ fault.message

/-- The exit code of a program that ends with the refusal. -/
def exitCode : ConfigError → Nat
  | .fileNotFound _ | .unreadable .. => 3
  | .notJson _ | .invalidSchema _ => 2
  | _ => 1

/-- Whether the text is not JSON at all. -/
def isSyntax : ConfigError → Bool
  | .notJson _ => true
  | _ => false

end ConfigError

end FeatureFlags
