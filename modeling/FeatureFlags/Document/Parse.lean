import FeatureFlags.Document.Keys
import FeatureFlags.Flag.Decode
import FeatureFlags.Reference.Resolver
import FeatureFlags.Schema.Bundled

/-!
# From a text to flags

`parse` takes a configuration through its stages: the text is JSON, the document satisfies a
validator, no key is repeated, every reference resolves, and every flag decodes and names a
default variant that it has. The first stage that fails refuses the whole text. `parseDocument`
starts from a document whose repeated keys are folded already, and so leaves out that stage.
-/

namespace FeatureFlags

/-- What to do about a repeated key. -/
inductive RepeatedKeys
  | refuse
  | lastWins
  deriving DecidableEq

/-- How strict to be. -/
structure Options where
  repeatedKeys : RepeatedKeys := .refuse
  checkDefaultVariant : Bool := true
  limit : Nat := defaultLimit

/-- The evaluators of a document; a document without the section has none. -/
def Json.evaluators? (document : Json) : Except ConfigError Members :=
  match document.get? evaluatorsKey with
  | none => .ok []
  | some (.obj ms) => .ok ms
  | some v => .error (.invalid (Pointer.child "" evaluatorsKey) (.evaluatorsNotObject v.kind))

/-- The flags of a document. -/
def Json.flags? (document : Json) : Except ConfigError Members :=
  match document.get? flagsKey with
  | some (.obj ms) => .ok ms
  | _ => .error (.invalid (Pointer.child "" flagsKey) .flagsNotObject)

/-- The metadata of a document; absent or null means none. -/
def Json.metadata? (document : Json) : Except ConfigError Metadata :=
  match document.get? metadataKey with
  | none | some .null => .ok .empty
  | some v =>
    (Metadata.ofJson? v).mapError fun fault =>
      .invalid (Pointer.child "" metadataKey) (.undecodable fault)

/-- The pointer to a flag of a document. -/
def flagPointer (key : String) : Pointer :=
  (Pointer.child "" flagsKey).child key

/-- Refuses a flag whose default variant is none of its variations. -/
def FeatureFlag.checkDefaultVariant (f : FeatureFlag) (path : Pointer) : Except ConfigError Unit :=
  match f.defaultVariant with
  | some name =>
    if f.variations.has name then .ok ()
    else .error (.invalid (path.child "defaultVariant") (.unknownDefault name))
  | none => .ok ()

/-- Decodes and checks a flag without references. -/
def flagOfResolved (options : Options) (path : Pointer) (v : Json) :
    Except ConfigError FeatureFlag := do
  let f ← (FeatureFlag.ofJson? v).mapError fun fault => .invalid path (.undecodable fault)
  if options.checkDefaultVariant then f.checkDefaultVariant path
  .ok f

/-- Resolves and decodes flags one after another, with one session for all. -/
def buildFlags (options : Options) (evaluators : Members) (s : Session) :
    Members → Except ConfigError (List (String × FeatureFlag))
  | [] => .ok []
  | (key, raw) :: more =>
    match s.resolve evaluators raw (flagPointer key) with
    | ⟨_, some e, _⟩ => .error (.ofReferenceError e)
    | ⟨v, none, s⟩ => do
      let f ← flagOfResolved options (flagPointer key) v
      let others ← buildFlags options evaluators s more
      .ok ((key, f) :: others)

/-- The flags of a document that needs no more validation. -/
def build (options : Options) (document : Json) : Except ConfigError FlagMap := do
  let evaluators ← document.evaluators?
  let flags ← document.flags?
  let built ← buildFlags options evaluators { limit := options.limit } flags
  let metadata ← document.metadata?
  .ok ⟨.ofList built, metadata⟩

/-- Refuses a document that does not satisfy the validator. -/
def validate (validator : Validator) (document : Json) : Except ConfigError Unit :=
  (validator document).mapError .violations

/-- The flags of a document. -/
def parseDocument (validator : Validator) (options : Options) (document : Json) :
    Except ConfigError FlagMap := do
  validate validator document
  build options document

/-- The flags of a text. -/
def parseWith (validator : Validator) (options : Options) (text : String) :
    Except ConfigError FlagMap := do
  let source ← (Source.ofText? text).mapError .notJson
  validate validator source.value
  if options.repeatedKeys = .refuse then checkRepeatedKeys source
  build options source.value

/-- The validator of flag configurations. -/
def bundledValidator : Validator := .ofSchema Bundled.schema

/-- The flags of a text, as strict as can be. -/
def parse (text : String) : Except ConfigError FlagMap :=
  parseWith bundledValidator {} text

end FeatureFlags
