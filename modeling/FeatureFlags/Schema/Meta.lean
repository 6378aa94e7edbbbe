import FeatureFlags.Schema.Basic

/-!
# Which values are schemas

`Schema.fault?` is the first reason why a JSON value is no schema. At each schema, the keywords
that name it and refer to others come first, then the schemas inside it, then the keywords about
a value, and last its descriptions.
-/

namespace FeatureFlags.Schema

/-- The complaint about a value that is not of the type. -/
def typeFault? (type : TypeName) (v : Json) : Option Complaint :=
  if type.admits v then none else some (.wrongType v [type])

/-- Whether every two of the values differ. -/
def allDistinct : List Json → Bool
  | [] => true
  | v :: more => more.all (!sameOption v ·) && allDistinct more

/-- Whether the value is the name of a type. -/
def isTypeName : Json → Bool
  | .str name => (TypeName.ofName? name).isSome
  | _ => false

/-- The complaint about the value of `type`: a name, or some names without repetition. -/
def typesFault? (v : Json) : Option Complaint :=
  let fits := match v with
    | .arr items => !items.isEmpty && items.all isTypeName && allDistinct items
    | v => isTypeName v
  if fits then none else some (.fitsNoAlternative v)

/-- The complaint about the value of `minProperties`: a natural number. -/
def leastFault? (v : Json) : Option Complaint :=
  typeFault? .integer v <|>
    match v with
    | .num n => if n.ratio.1 < 0 then some (.belowMinimum v 0) else none
    | _ => none

/-- The complaint about the value of `required`: texts without repetition. -/
def requiredFault? (v : Json) : Option Complaint :=
  typeFault? .array v <|>
    match v with
    | .arr items =>
      items.findSome? (typeFault? .string)
        <|> (if allDistinct items then none else some (.repeatedItems v))
    | _ => none

/-- A member of a schema: its value's own complaint as a schema, and as an object of schemas. -/
structure Part where
  key : String
  value : Json
  asSchema? : Option Complaint
  asSchemas? : Option Complaint

/-- The first complaint about the value of a keyword, if the keyword is there. -/
def about (parts : List Part) (key : String) (fault? : Part → Option Complaint) :
    Option Complaint :=
  (parts.find? (·.key == key)).bind fault?

/-- The first complaint about the keywords of a schema. -/
def partsFault? (parts : List Part) : Option Complaint :=
  let text (key : String) := about parts key fun p => typeFault? .string p.value
  text "$id" <|> text "$schema" <|> text "$ref" <|> text "$comment"
    <|> about parts "$defs" (fun p => typeFault? .object p.value <|> p.asSchemas?)
    <|> about parts "additionalProperties" (·.asSchema?)
    <|> about parts "properties" (fun p => typeFault? .object p.value <|> p.asSchemas?)
    <|> about parts "type" (fun p => typesFault? p.value)
    <|> about parts "enum" (fun p => typeFault? .array p.value)
    <|> about parts "minProperties" (fun p => leastFault? p.value)
    <|> about parts "required" (fun p => requiredFault? p.value)
    <|> text "title" <|> text "description"

mutual

/-- The first reason why a value is no schema. -/
def fault? : Json → Option Complaint
  | .bool _ => none
  | .obj ms => partsFault? (parts ms)
  | v => some (.wrongType v [.boolean, .object])

/-- The members of a schema. Only some keywords hold schemas. -/
def parts : List (String × Json) → List Part
  | [] => []
  | (k, v) :: more =>
    ⟨k, v, if k = "additionalProperties" then fault? v else none,
      if k = "$defs" ∨ k = "properties" then memberFault? v else none⟩ :: parts more

/-- The first reason why a member's value is no schema. -/
def memberFault? : Json → Option Complaint
  | .obj ms => firstFault? ms
  | _ => none

/-- The first reason among values that are to be schemas. -/
def firstFault? : List (String × Json) → Option Complaint
  | [] => none
  | (_, v) :: more => fault? v <|> firstFault? more

end

end FeatureFlags.Schema
