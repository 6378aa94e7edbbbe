import FeatureFlags.Document.ConfigError
import FeatureFlags.Json.Source

/-!
# Repeated keys

A document may not repeat a key at its top level, among its flags or among its evaluators. The
check looks at the text as it stands, since a JSON value has folded repeated keys already: a
section that is itself given twice counts with the keys of both. Keys of a section are only there
if the section is an object; anything else is complained about first.
-/

namespace FeatureFlags

/-- The keys of a document and of its two sections, in the order of the text. -/
structure SectionKeys where
  document : List String := []
  flags : List String := []
  evaluators : List String := []

namespace Source

/-- What a value in a text looks like to a complaint. -/
def found (s : Source) : Found :=
  .ofJson s.value

/-- The members of an object as they stand. -/
def members? (expected : Expected) (s : Source) :
    Except ConfigFault (List (String × Source)) :=
  match s with
  | .obj ms _ => .ok ms
  | _ => .error (.unreadableKeys (.wrongType s.found expected) s.mark)

/-- The keys of an object as they stand. -/
def keys? (expected : Expected) (s : Source) : Except ConfigFault (List String) :=
  (s.members? expected).map fun ms => ms.map (·.1)

end Source

namespace SectionKeys

/-- The keys after one more member of the document. -/
def add (keys : SectionKeys) (key : String) (s : Source) : Except ConfigFault SectionKeys := do
  let keys ←
    -- a section that is given twice counts with the keys of both
    if key = flagsKey then
      (s.keys? .section).map fun more => { keys with flags := keys.flags ++ more }
    else if key = evaluatorsKey then
      (s.keys? .section).map fun more => { keys with evaluators := keys.evaluators ++ more }
    else .ok keys
  .ok { keys with document := keys.document ++ [key] }

/-- The keys after more members of the document. -/
def addAll (keys : SectionKeys) : List (String × Source) → Except ConfigFault SectionKeys
  | [] => .ok keys
  | (key, s) :: more => (keys.add key s).bind (addAll · more)

def ofSource? (s : Source) : Except ConfigFault SectionKeys :=
  (s.members? .document).bind (addAll {} ·)

/-- The first key that has been there before. -/
def firstRepeated? (seen : List String) : List String → Option String
  | [] => none
  | key :: more => if key ∈ seen then some key else firstRepeated? (key :: seen) more

/-- The first repeated key, looked for in the document, then in its flags, then in its
evaluators. -/
def repeated? (keys : SectionKeys) : Option (Section × String) :=
  ((firstRepeated? [] keys.document).map (.document, ·))
    <|> ((firstRepeated? [] keys.flags).map (.flags, ·))
    <|> ((firstRepeated? [] keys.evaluators).map (.evaluators, ·))

end SectionKeys

/-- Refuses a document that repeats a key. -/
def checkRepeatedKeys (s : Source) : Except ConfigError Unit :=
  match SectionKeys.ofSource? s with
  | .error fault => .error (.invalid "" fault)
  | .ok keys =>
    match keys.repeated? with
    | some (part, key) => .error (.repeatedKey part key)
    | none => .ok ()

end FeatureFlags
