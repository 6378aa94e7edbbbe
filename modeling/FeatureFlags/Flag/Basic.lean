import FeatureFlags.Json.Basic
import FeatureFlags.KeyMap

/-!
# Flags

A `FeatureFlag` is one resolved flag: its variations in document order, the optional settings,
and metadata of scalars. Targeting and the default rule are kept as JSON. A `FlagMap` holds the
flags of one configuration by key, together with the metadata of the whole set. `toJson` gives
the document form, without optional settings that are absent, and `same` compares two maps as
JSON values are compared.
-/

namespace FeatureFlags

/-- Whether a flag is served. -/
inductive FlagState
  | enabled
  | disabled
  deriving DecidableEq

def FlagState.word : FlagState → String
  | .enabled => "ENABLED"
  | .disabled => "DISABLED"

def FlagState.ofWord? (word : String) : Option FlagState :=
  if word = "ENABLED" then some .enabled
  else if word = "DISABLED" then some .disabled
  else none

/-- A scalar that describes a flag or a set of flags. -/
inductive MetadataValue
  | bool (value : Bool)
  | number (value : Number)
  | string (value : String)
  deriving DecidableEq

namespace MetadataValue

def toJson : MetadataValue → Json
  | .bool b => .bool b
  | .number n => .num n
  | .string s => .str s

/-- The scalar that a value is, if it is one other than null. -/
def ofJson? : Json → Option MetadataValue
  | .bool b => some (.bool b)
  | .num n => some (.number n)
  | .str s => some (.string s)
  | _ => none

end MetadataValue

/-- Scalars by name. -/
abbrev Metadata : Type := KeyMap MetadataValue

namespace Metadata

def toJson (m : Metadata) : Json :=
  .obj (m.entries.map fun (k, v) => (k, v.toJson))

def same (m n : Metadata) : Bool :=
  KeyMap.agree (fun a b => a.toJson.same b.toJson) m n

end Metadata

/-- A resolved flag. -/
structure FeatureFlag where
  variations : Members
  defaultVariant : Option String := none
  state : FlagState := .enabled
  targeting : Option Json := none
  defaultRule : Option Json := none
  bucketingKey : Option String := none
  version : Option String := none
  metadata : Metadata := .empty

namespace FeatureFlag

def isEnabled (f : FeatureFlag) : Bool :=
  f.state == .enabled

def variation? (f : FeatureFlag) (name : String) : Option Json :=
  f.variations.get? name

/-- The value of the default variant, if one is named and present. -/
def defaultValue? (f : FeatureFlag) : Option Json :=
  f.defaultVariant.bind f.variation?

/-- A member that is left out when there is no value. -/
def optional (key : String) (value? : Option Json) : Members :=
  match value? with
  | some value => [(key, value)]
  | none => []

/-- The members of the flag in a document. -/
def toMembers (f : FeatureFlag) : Members :=
  [("variations", .obj f.variations)]
    ++ optional "defaultVariant" (f.defaultVariant.map .str)
    ++ [("state", .str f.state.word)]
    ++ optional "targeting" f.targeting
    ++ optional "defaultRule" f.defaultRule
    ++ optional "bucketingKey" (f.bucketingKey.map .str)
    ++ optional "version" (f.version.map .str)
    ++ optional "metadata" (if f.metadata.isEmpty then none else some f.metadata.toJson)

def toJson (f : FeatureFlag) : Json :=
  .obj f.toMembers

/-- Equality of all settings, as JSON values are compared. -/
def same (f g : FeatureFlag) : Bool :=
  (Json.obj f.variations).same (.obj g.variations)
    && f.defaultVariant == g.defaultVariant
    && f.state == g.state
    && sameOptional f.targeting g.targeting
    && sameOptional f.defaultRule g.defaultRule
    && f.bucketingKey == g.bucketingKey
    && f.version == g.version
    && f.metadata.same g.metadata
where
  sameOptional : Option Json → Option Json → Bool
    | none, none => true
    | some a, some b => a.same b
    | _, _ => false

end FeatureFlag

/-- The flags of a configuration by key, with the metadata of the set. -/
structure FlagMap where
  flags : KeyMap FeatureFlag
  metadata : Metadata

namespace FlagMap

def get? (m : FlagMap) (key : String) : Option FeatureFlag :=
  m.flags.get? key

def contains (m : FlagMap) (key : String) : Bool :=
  (m.get? key).isSome

def size (m : FlagMap) : Nat :=
  m.flags.size

def toJson (m : FlagMap) : Json :=
  .obj ([("flags", .obj (m.flags.entries.map fun (k, f) => (k, f.toJson)))]
    ++ FeatureFlag.optional "metadata"
      (if m.metadata.isEmpty then none else some m.metadata.toJson))

def same (m n : FlagMap) : Bool :=
  KeyMap.agree FeatureFlag.same m.flags n.flags && m.metadata.same n.metadata

end FlagMap

end FeatureFlags
