import FeatureFlags.Json.Lexeme.Quoted
import FeatureFlags.Schema.Violation

/-!
# Schemas

A schema is a list of rules, and a value satisfies it when it breaks none. `Schema.ofJson` takes
the rules from a JSON Schema in the order of its keywords; a reference becomes a rule that
stands for the rules it points at, which are kept in a table of definitions. Evaluation goes down
the value: `check` gives the violations of a schema by a value, and it needs no bound, since every
rule about members descends into the value.
-/

namespace FeatureFlags

/-- A rule about a value. The empty list of rules admits everything. -/
inductive Rule
  /-- No value is admitted. -/
  | never
  /-- The value has one of the types. -/
  | types (types : List TypeName)
  /-- The value equals one of the options. -/
  | among (options : List Json)
  /-- An object has the keys. -/
  | required (keys : List String)
  /-- An object has at least as many members. -/
  | least (members : Nat)
  /-- Members of an object with a declared key satisfy what is declared for it. -/
  | properties (declared : List (String × List Rule))
  /-- Members of an object with a declared key satisfy what is declared for it, and the others
  satisfy `others`. -/
  | members (declared : List (String × List Rule)) (others : List Rule)
  /-- Members of an object with a declared key satisfy what is declared for it, and there are no
  others. -/
  | closed (declared : List (String × List Rule))
  /-- An object has no members. -/
  | empty
  /-- The rules that a pointer into the schema's document leads to. -/
  | ref (pointer : Pointer)

/-- Rules that a value has to satisfy together. -/
abbrev Schema : Type := List Rule

/-- Rules by the pointer that leads to them. -/
abbrev Definitions : Type := List (Pointer × Schema)

namespace Schema

/-! ## From JSON -/

/-- The value of a keyword, with the schemas in it. -/
inductive Keyword
  | plain (value : Json)
  | schema (closes : Bool) (value : Schema)
  | schemas (values : List (String × Schema))

def keyword? (ks : List (String × Keyword)) (name : String) : Option Keyword :=
  (ks.find? (·.1 == name)).map (·.2)

def texts (items : List Json) : List String :=
  items.filterMap fun
    | .str s => some s
    | _ => none

/-- The types that the value of `type` names. -/
def typesOf : Json → List TypeName
  | .str name => (TypeName.ofName? name).toList
  | .arr items => (texts items).filterMap TypeName.ofName?
  | _ => []

/-- The least number of members that the value of `minProperties` asks for; at most what fits 64
bits. -/
def leastOf : Json → Nat
  | .num n => min (n.ratio.1.toNat / n.ratio.2) (Nat.pow 2 64 - 1)
  | _ => 0

/-- The pointer in a reference into the same document, behind its number sign. -/
def fragment (target : String) : Pointer :=
  match target.toList with
  | '#' :: more => String.ofList more
  | _ => target

/-- Whether `additionalProperties` is there and rules something out, so that it takes over the
declared properties beside it. -/
def takesOver (ks : List (String × Keyword)) : Bool :=
  match keyword? ks "additionalProperties" with
  | some (.schema ..) => true
  | _ => false

/-- The rules that one keyword makes among the others. -/
def rulesOf (ks : List (String × Keyword)) : String × Keyword → Schema
  | ("type", .plain v) => [.types (typesOf v)]
  | ("enum", .plain (.arr options)) => [.among options]
  | ("required", .plain (.arr items)) => [.required (texts items)]
  | ("minProperties", .plain v) => [.least (leastOf v)]
  | ("$ref", .plain (.str target)) => [.ref (fragment target)]
  | ("properties", .schemas declared) => if takesOver ks then [] else [.properties declared]
  | ("additionalProperties", .schema closes others) =>
    -- together with `properties`, one rule does the work of both
    match keyword? ks "properties", closes with
    | some (.schemas declared), true => [.closed declared]
    | some (.schemas declared), false => [.members declared others]
    | _, true => [.empty]
    | _, false => [.members [] others]
  | _ => []

mutual

/-- The rules of a JSON Schema; a boolean admits everything or nothing. -/
def ofJson : Json → Schema
  | .bool false => [.never]
  | .obj ms =>
    let ks := keywords ms
    ks.flatMap (rulesOf ks)
  | _ => []

def keywords : List (String × Json) → List (String × Keyword)
  | [] => []
  | (name, v) :: more => (name, keywordOf (name == "properties") (name == "additionalProperties") v)
    :: keywords more

/-- The value of a keyword that holds schemas by name, or one schema, or neither. -/
def keywordOf (byName one : Bool) : Json → Keyword
  | .obj ms =>
    if byName then .schemas (ofMembers ms)
    else if one then
      let ks := keywords ms
      .schema false (ks.flatMap (rulesOf ks))
    else .plain (.obj ms)
  | .bool false => if one then .schema true [] else .plain (.bool false)
  | v => .plain v

def ofMembers : List (String × Json) → List (String × Schema)
  | [] => []
  | (name, v) :: more => (name, ofJson v) :: ofMembers more

end

/-! ## References -/

mutual

/-- The pointers that the rules refer to, in order. -/
def pointers : List Rule → List Pointer
  | [] => []
  | rule :: more => pointersOfRule rule ++ pointers more
termination_by structural rules => rules

def pointersOfRule : Rule → List Pointer
  | .ref p => [p]
  | .properties declared => pointersOfDeclared declared
  | .closed declared => pointersOfDeclared declared
  | .members declared others => pointersOfDeclared declared ++ pointers others
  | _ => []
termination_by structural rule => rule

def pointersOfDeclared : List (String × List Rule) → List Pointer
  | [] => []
  | (_, rules) :: more => pointers rules ++ pointersOfDeclared more
termination_by structural declared => declared

end

def definition? (defs : Definitions) (p : Pointer) : Option Schema :=
  (defs.find? (·.1 == p)).map (·.2)

/-- The bytes that a fragment of a URI stands for; two digits behind a percent sign are one
byte. -/
def fragmentBytes : List Char → List UInt8
  | [] => []
  | '%' :: a :: b :: more =>
    match Quoted.hexNumber? [a, b] with
    | some n => UInt8.ofNat n :: fragmentBytes more
    | none => (String.ofList ['%']).toUTF8.toList ++ fragmentBytes (a :: b :: more)
  | c :: more => (String.ofList [c]).toUTF8.toList ++ fragmentBytes more

/-- The value that a pointer in a fragment of a URI leads to. -/
def target? (document : Json) (p : Pointer) : Option Json :=
  if p.toList.contains '%' then
    (String.fromUTF8? ⟨(fragmentBytes p.toList).toArray⟩).bind document.pointee?
  else document.pointee? p

/-- Adds the definitions that the pending pointers and the definitions themselves need, each once,
depth first; complains about a pointer that leads nowhere. `fuel` is more than the definitions to
add. -/
def define (document : Json) : (fuel : Nat) → List Pointer → Definitions →
    Except Pointer Definitions
  | 0, _, defs => .ok defs
  | fuel + 1, pending, defs =>
    -- what is defined already drops out
    match pending.dropWhile fun p => (definition? defs p).isSome with
    | [] => .ok defs
    | p :: more =>
      match target? document p with
      | none => .error p
      | some v => define document fuel (pointers (ofJson v) ++ more) ((p, ofJson v) :: defs)

/-- The rules with references replaced by what they point at, `depth` deep. A chain of references
that is longer than the list of definitions goes in a circle, and says nothing new. -/
def inline (defs : Definitions) : (depth : Nat) → Schema → Schema
  | 0, rules => rules
  | depth + 1, rules =>
    rules.flatMap fun
      | .ref p => inline defs depth ((definition? defs p).getD [])
      | rule => [rule]

/-! ## Evaluation -/

/-- Equality for `enum`: numbers by value, objects member by member in order. -/
def sameOption : Json → Json → Bool := fun a b => go a b
where
  go : Json → Json → Bool
    | .null, .null => true
    | .bool a, .bool b => a == b
    | .num a, .num b => a.sameQuantity b
    | .str a, .str b => a == b
    | .arr as, .arr bs => goItems as bs
    | .obj as, .obj bs => goMembers as bs
    | _, _ => false
  goItems : List Json → List Json → Bool
    | [], [] => true
    | a :: as, b :: bs => go a b && goItems as bs
    | _, _ => false
  goMembers : List (String × Json) → List (String × Json) → Bool
    | [], [] => true
    | (j, a) :: as, (k, b) :: bs => j == k && go a b && goMembers as bs
    | _, _ => false

/-- The violations of a schema by a value at a pointer. -/
abbrev Checker : Type := Schema → Pointer → List Violation

/-- A member of an object, with its check. -/
structure CheckedMember where
  key : String
  value : Json
  check : Checker

/-- The rules declared for a key. -/
def declaredFor? (declared : List (String × Schema)) (key : String) : Option Schema :=
  (declared.find? (·.1 == key)).map (·.2)

/-- The violations by members that are in the declared schemas, in the order of the schemas. -/
def checkDeclared (declared : List (String × Schema)) (ms : List CheckedMember) (path : Pointer) :
    List Violation :=
  declared.flatMap fun (key, schema) =>
    match ms.find? (·.key == key) with
    | some m => m.check schema (path.child key)
    | none => []

/-- The violations by every member, in the order of the members; `others` is for members that are
not declared. -/
def checkMembers (declared : List (String × Schema)) (others : Schema) (ms : List CheckedMember)
    (path : Pointer) : List Violation :=
  ms.flatMap fun m => m.check ((declaredFor? declared m.key).getD others) (path.child m.key)

/-- The violation by members that are not declared. -/
def checkClosed (declared : List (String × Schema)) (ms : List CheckedMember) (path : Pointer) :
    List Violation :=
  match ms.filter fun m => (declaredFor? declared m.key).isNone with
  | [] => []
  | unexpected => [⟨path, .unexpectedMembers (unexpected.map (·.key))⟩]

/-- The violations of a rule by a value whose members are given, if it is an object. -/
def checkRule (v : Json) (ms? : Option (List CheckedMember)) (path : Pointer) (rule : Rule) :
    List Violation :=
  match rule, ms? with
  | .never, _ => [⟨path, .forbidden v⟩]
  | .types types, _ => if types.any (·.admits v) then [] else [⟨path, .wrongType v types⟩]
  | .among options, _ =>
    if options.any (sameOption · v) then [] else [⟨path, .notAmong v options⟩]
  | .required keys, some ms =>
    (keys.filter fun key => ms.all (·.key != key)).map fun key => ⟨path, .missing key⟩
  | .least n, some ms => if ms.length < n then [⟨path, .tooFewMembers v n⟩] else []
  | .properties declared, some ms => checkDeclared declared ms path
  | .members declared others, some ms => checkMembers declared others ms path
  | .closed declared, some ms => checkMembers declared [] ms path ++ checkClosed declared ms path
  | .empty, some (m :: _) => [⟨path, .forbidden m.value⟩]
  | _, _ => []

mutual

/-- The violations of a schema by a value at a pointer, rule by rule. -/
def check (defs : Definitions) : Json → Checker
  | .obj ms => fun schema path =>
    (inline defs defs.length schema).flatMap
      (checkRule (.obj ms) (some (checkedMembers defs ms)) path)
  | v => fun schema path => (inline defs defs.length schema).flatMap (checkRule v none path)

def checkedMembers (defs : Definitions) : List (String × Json) → List CheckedMember
  | [] => []
  | (k, v) :: more => ⟨k, v, check defs v⟩ :: checkedMembers defs more

end

end Schema

end FeatureFlags
