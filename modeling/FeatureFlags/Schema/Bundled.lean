import FeatureFlags.Schema.Validator

/-!
# The schema of flag configurations

`Bundled.document` is the JSON Schema that configurations are checked against, and
`Bundled.schema` its compiled form: `ofJson?_document` says that compiling the one gives the
other.
-/

namespace FeatureFlags.Bundled

/-- An object that asks for one type. -/
def ofType (name : String) : Json :=
  .obj [("type", .str name)]

/-- An object that asks for one of some types. -/
def ofTypes (names : List String) : Json :=
  .obj [("type", .arr (names.map .str))]

/-- A reference to a definition. -/
def refTo (pointer : String) : Json :=
  .obj [("$ref", .str pointer)]

def flagDocument : Json :=
  .obj [
    ("type", .str "object"),
    ("properties", .obj [
      ("variations", .obj [("type", .str "object"), ("minProperties", .num (.int 1))]),
      ("defaultVariant", ofTypes ["string", "null"]),
      ("state", .obj [("enum", .arr [.str "ENABLED", .str "DISABLED"])]),
      ("targeting", ofType "object"),
      ("defaultRule", ofType "object"),
      ("bucketingKey", ofType "string"),
      ("version", ofType "string"),
      ("metadata", refTo "#/$defs/metadata")]),
    ("required", .arr [.str "variations"])]

def metadataDocument : Json :=
  .obj [
    ("type", .str "object"),
    ("additionalProperties", ofTypes ["string", "number", "boolean"])]

/-- The schema of flag configurations. -/
def document : Json :=
  .obj [
    ("$schema", .str "https://json-schema.org/draft/2020-12/schema"),
    ("$id", .str "https://flagd.dev/schema/v0/flags.json"),
    ("title", .str "flagd flag configuration"),
    ("description", .str "Feature flag definitions with shared, named evaluators."),
    ("type", .str "object"),
    ("properties", .obj [
      ("$schema", ofType "string"),
      ("flags", .obj [
        ("type", .str "object"),
        ("additionalProperties", refTo "#/$defs/flag")]),
      ("$evaluators", .obj [
        ("type", .str "object"),
        ("additionalProperties", .bool true)]),
      ("metadata", refTo "#/$defs/metadata")]),
    ("required", .arr [.str "flags"]),
    ("$defs", .obj [("flag", flagDocument), ("metadata", metadataDocument)])]

def flagRules : Schema :=
  [.types [.object],
    .properties [
      ("variations", [.types [.object], .least 1]),
      ("defaultVariant", [.types [.string, .null]]),
      ("state", [.among [.str "ENABLED", .str "DISABLED"]]),
      ("targeting", [.types [.object]]),
      ("defaultRule", [.types [.object]]),
      ("bucketingKey", [.types [.string]]),
      ("version", [.types [.string]]),
      ("metadata", [.ref "/$defs/metadata"])],
    .required ["variations"]]

def metadataRules : Schema :=
  [.types [.object], .members [] [.types [.string, .number, .boolean]]]

/-- The compiled schema of flag configurations. -/
def schema : CompiledSchema where
  rules :=
    [.types [.object],
      .properties [
        ("$schema", [.types [.string]]),
        ("flags", [.types [.object], .members [] [.ref "/$defs/flag"]]),
        ("$evaluators", [.types [.object]]),
        ("metadata", [.ref "/$defs/metadata"])],
      .required ["flags"]]
  definitions := [("/$defs/metadata", metadataRules), ("/$defs/flag", flagRules)]

theorem ofJson?_document : CompiledSchema.ofJson? document = .ok schema := rfl

end FeatureFlags.Bundled
