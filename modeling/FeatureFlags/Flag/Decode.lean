import FeatureFlags.Flag.Basic
import FeatureFlags.Flag.DecodeFault

/-!
# Flags from JSON values

`FeatureFlag.ofJson?` reads a flag from an object, by its members in document order, or from an
array, by place. Members of other names are passed over, a missing setting or a null takes its
default, and only the variations are required. The first fault ends the reading.
-/

namespace FeatureFlags

def stringOfJson? : Json → Except DecodeFault String
  | .str s => .ok s
  | v => .error (.wrongType (.ofJson v) .string)

/-- A text, or null for none. -/
def optionalStringOfJson? : Json → Except DecodeFault (Option String)
  | .null => .ok none
  | v => (stringOfJson? v).map some

/-- Any value, with null for none. -/
def optionalOfJson : Json → Option Json
  | .null => none
  | v => some v

def membersOfJson? : Json → Except DecodeFault Members
  | .obj ms => .ok ms
  | v => .error (.wrongType (.ofJson v) .map)

def FlagState.ofWord (word : String) : Except DecodeFault FlagState :=
  match FlagState.ofWord? word with
  | some s => .ok s
  | none => .error (.unknownState word)

/-- A state from its word, or from an object whose one member has that name and holds null. -/
def FlagState.ofJson? : Json → Except DecodeFault FlagState
  | .str word => FlagState.ofWord word
  | .obj [(word, v)] =>
    match FlagState.ofWord word, v with
    | .ok s, .null => .ok s
    | .ok _, v => .error (.wrongType (.ofJson v) .unit)
    | .error e, _ => .error e
  | .obj _ => .error (.wrongValue .map .singleKey)
  | v => .error (.wrongType (.ofJson v) .stateForm)

/-- A scalar, or a fault for null and containers. -/
def MetadataValue.ofJson (v : Json) : Except DecodeFault MetadataValue :=
  match MetadataValue.ofJson? v with
  | some s => .ok s
  | none => .error .notScalar

/-- The members with their values as scalars. -/
def Metadata.ofMembers? : Members → Except DecodeFault (List (String × MetadataValue))
  | [] => .ok []
  | (k, v) :: more =>
    match MetadataValue.ofJson v with
    | .ok s => (Metadata.ofMembers? more).map ((k, s) :: ·)
    | .error e => .error e

/-- Metadata from an object of scalars. -/
def Metadata.ofJson? (v : Json) : Except DecodeFault Metadata :=
  match membersOfJson? v with
  | .ok ms => (Metadata.ofMembers? ms).map KeyMap.ofList
  | .error e => .error e

/-- The settings of a flag, in the order in which an array gives them. -/
inductive FlagField
  | variations | defaultVariant | state | targeting
  | defaultRule | bucketingKey | version | metadata
  deriving DecidableEq

namespace FlagField

def all : List FlagField :=
  [.variations, .defaultVariant, .state, .targeting, .defaultRule, .bucketingKey, .version,
    .metadata]

def name : FlagField → String
  | .variations => "variations"
  | .defaultVariant => "defaultVariant"
  | .state => "state"
  | .targeting => "targeting"
  | .defaultRule => "defaultRule"
  | .bucketingKey => "bucketingKey"
  | .version => "version"
  | .metadata => "metadata"

def ofName? (name : String) : Option FlagField :=
  all.find? (·.name == name)

end FlagField

/-- A flag whose variations may not be known yet. -/
structure FlagDraft where
  variations? : Option Members := none
  rest : FeatureFlag := { variations := [] }

namespace FlagDraft

def set (d : FlagDraft) (field : FlagField) (v : Json) : Except DecodeFault FlagDraft :=
  match field with
  | .variations => (membersOfJson? v).map fun ms => { d with variations? := some ms }
  | .defaultVariant =>
    (optionalStringOfJson? v).map fun s? => { d with rest.defaultVariant := s? }
  | .state => (FlagState.ofJson? v).map fun s => { d with rest.state := s }
  | .targeting => .ok { d with rest.targeting := optionalOfJson v }
  | .defaultRule => .ok { d with rest.defaultRule := optionalOfJson v }
  | .bucketingKey => (optionalStringOfJson? v).map fun s? => { d with rest.bucketingKey := s? }
  | .version => (optionalStringOfJson? v).map fun s? => { d with rest.version := s? }
  | .metadata => (Metadata.ofJson? v).map fun m => { d with rest.metadata := m }

/-- Sets the settings that the members name. -/
def setMembers (d : FlagDraft) : Members → Except DecodeFault FlagDraft
  | [] => .ok d
  | (k, v) :: more =>
    match FlagField.ofName? k with
    | some field => (d.set field v).bind (setMembers · more)
    | none => d.setMembers more

/-- Sets settings by place; as many as there are values. -/
def setItems (d : FlagDraft) : List FlagField → List Json → Except DecodeFault FlagDraft
  | field :: fields, v :: vs => (d.set field v).bind (setItems · fields vs)
  | _, _ => .ok d

/-- The flag, if its variations are known. -/
def finish? (d : FlagDraft) : Option FeatureFlag :=
  d.variations?.map fun ms => { d.rest with variations := ms }

end FlagDraft

/-- A flag from an object or an array. -/
def FeatureFlag.ofJson? : Json → Except DecodeFault FeatureFlag
  | .obj ms =>
    (FlagDraft.setMembers {} ms).bind fun d =>
      match d.finish? with
      | some f => .ok f
      | none => .error (.missingField FlagField.variations.name)
  | .arr items =>
    (FlagDraft.setItems {} FlagField.all items).bind fun d =>
      match d.finish? with
      | some f =>
        if FlagField.all.length < items.length then
          .error (.wrongLength items.length .shorterArray)
        else .ok f
      | none => .error (.wrongLength 0 .flagFields)
  | v => .error (.wrongType (.ofJson v) .flag)

end FeatureFlags
