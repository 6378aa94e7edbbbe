import FeatureFlags.Binary64.Basic

/-!
# JSON values

A value keeps what a reader of the text can see: members of an object stay in order, and an
integer stays apart from a floating-point number. `get?` looks up a member and `put` sets one,
keeping the place of a key that is there already. `same` is equality that forgets the order of
members and tells no zero from the other; `nodes` counts the values inside a value.
-/

namespace FeatureFlags

/-- A JSON number: an integer that fits 64 bits, signed or unsigned, or a finite binary64
number. -/
inductive Number
  | int (value : Int)
  | float (value : Binary64)
  deriving DecidableEq

namespace Number

/-- Equality as numbers of one kind: an integer never equals a floating-point number. -/
def same : Number → Number → Bool
  | .int a, .int b => a == b
  | .float a, .float b => a.sameValue b
  | _, _ => false

/-- The exact value as a signed numerator and a positive denominator. -/
def ratio : Number → Int × Nat
  | .int value => (value, 1)
  | .float value => value.ratio

/-- Equality of the exact values, whatever their kinds. -/
def sameQuantity (a b : Number) : Bool :=
  a.ratio.1 * b.ratio.2 == b.ratio.1 * a.ratio.2

/-- Whether the value has no fractional part. -/
def isIntegral : Number → Bool
  | .int _ => true
  | .float value => value.isIntegral

end Number

/-- A JSON value; the members of an object are in order. -/
inductive Json
  | null
  | bool (value : Bool)
  | num (value : Number)
  | str (value : String)
  | arr (items : List Json)
  | obj (members : List (String × Json))

/-- The members of an object in order. -/
abbrev Members : Type := List (String × Json)

namespace Members

def get? (ms : Members) (key : String) : Option Json :=
  (ms.find? (·.1 == key)).map (·.2)

def has (ms : Members) (key : String) : Bool :=
  ms.any (·.1 == key)

def keys (ms : Members) : List String :=
  ms.map (·.1)

/-- Sets the value under a key: in place if the key is there, at the end if it is not. -/
def put : Members → String → Json → Members
  | [], key, value => [(key, value)]
  | (k, v) :: more, key, value =>
    if k == key then (k, value) :: more else (k, v) :: put more key value

/-- A member that is set is found under its key, and no other member changes. -/
@[simp] theorem get?_put (ms : Members) (key : String) (value : Json) (k : String) :
    (ms.put key value).get? k = if k = key then some value else ms.get? k := by
  induction ms with
  | nil =>
    by_cases h : k = key
    · simp [put, get?, h]
    · simp [put, get?, h, Ne.symm h]
  | cons m more ih =>
    obtain ⟨k', v⟩ := m
    simp only [get?] at ih ⊢
    by_cases same : k' = key
    · subst same
      by_cases h : k = k'
      · simp [put, h]
      · simp [put, h, Ne.symm h]
    · by_cases found : k' = k
      · subst found
        simp [put, same]
      · simp [put, same, found, ih]

/-- Without the member under a key. -/
def erase (ms : Members) (key : String) : Members :=
  ms.filter (·.1 != key)

end Members

/-- The six kinds of JSON value. -/
inductive Kind
  | null | boolean | number | string | array | object
  deriving DecidableEq

def Kind.name : Kind → String
  | .null => "null"
  | .boolean => "boolean"
  | .number => "number"
  | .string => "string"
  | .array => "array"
  | .object => "object"

namespace Json

def kind : Json → Kind
  | .null => .null
  | .bool _ => .boolean
  | .num _ => .number
  | .str _ => .string
  | .arr _ => .array
  | .obj _ => .object

/-- The member of an object under a key; nothing for other values. -/
def get? : Json → String → Option Json
  | .obj ms, key => Members.get? ms key
  | _, _ => none

mutual

/-- The number of values inside a value, itself included. -/
def nodes : Json → Nat
  | .arr items => 1 + nodesOfItems items
  | .obj ms => 1 + nodesOfMembers ms
  | _ => 1

/-- The number of values inside the items of an array. -/
def nodesOfItems : List Json → Nat
  | [] => 0
  | v :: more => nodes v + nodesOfItems more

/-- The number of values inside the members of an object. -/
def nodesOfMembers : List (String × Json) → Nat
  | [] => 0
  | (_, v) :: more => nodes v + nodesOfMembers more

end

mutual

/-- Equality up to the order of members, with the two zeros equal. -/
def same : Json → Json → Bool
  | .null, .null => true
  | .bool a, .bool b => a == b
  | .num a, .num b => a.same b
  | .str a, .str b => a == b
  | .arr as, .arr bs => sameItems as bs
  | .obj as, .obj bs => as.length == bs.length && membersIn as bs
  | _, _ => false

/-- Items are compared place by place. -/
def sameItems : List Json → List Json → Bool
  | [], [] => true
  | a :: as, b :: bs => same a b && sameItems as bs
  | _, _ => false

/-- Whether every member has one of the same key and value among the others. -/
def membersIn : List (String × Json) → Members → Bool
  | [], _ => true
  | (k, a) :: as, bs =>
    (match bs.get? k with
      | some b => same a b
      | none => false) && membersIn as bs

end

mutual

/-- Whether no object in the value, at any depth, repeats a key. -/
def distinctKeys : Json → Bool
  | .arr items => distinctKeysInItems items
  | .obj ms => decide (ms.map (·.1)).Nodup && distinctKeysInMembers ms
  | _ => true

/-- Whether no object inside the items repeats a key. -/
def distinctKeysInItems : List Json → Bool
  | [] => true
  | v :: more => distinctKeys v && distinctKeysInItems more

/-- Whether no object inside the members' values repeats a key. -/
def distinctKeysInMembers : List (String × Json) → Bool
  | [] => true
  | (_, v) :: more => distinctKeys v && distinctKeysInMembers more

end

end Json

end FeatureFlags
