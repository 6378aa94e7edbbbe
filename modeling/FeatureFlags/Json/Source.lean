import FeatureFlags.Json.Lexeme.Quoted
import FeatureFlags.Json.Lexeme.Numeral

/-!
# JSON as it stands in a text

`Source` is the value that a text holds before repeated keys are folded: every member is there,
and every value knows the place at which a complaint about its kind points. `Source.ofText?`
reads a whole text; `Source.value` forgets places and lets the last of several members under one
key win at the place of the first. Containers may be nested 127 deep.
-/

namespace FeatureFlags

/-- A value in a text. Its mark is the place behind a scalar, and before the bracket of a
container. -/
inductive Source
  | null (mark : Position)
  | bool (value : Bool) (mark : Position)
  | num (value : Number) (mark : Position)
  | str (value : String) (mark : Position)
  | arr (items : List Source) (mark : Position)
  | obj (members : List (String × Source)) (mark : Position)

namespace Source

/-- The place at which a complaint about the kind of the value points. -/
def mark : Source → Position
  | .null p | .bool _ p | .num _ p | .str _ p | .arr _ p | .obj _ p => p

mutual

/-- The value, with repeated keys folded. -/
def value : Source → Json
  | .null _ => .null
  | .bool b _ => .bool b
  | .num n _ => .num n
  | .str s _ => .str s
  | .arr items _ => .arr (valuesOfItems items)
  | .obj ms _ => .obj (foldMembers ms [])

def valuesOfItems : List Source → List Json
  | [] => []
  | s :: more => value s :: valuesOfItems more

/-- The members put one after the other into those that are there already. -/
def foldMembers : List (String × Source) → Members → Members
  | [], done => done
  | (k, s) :: more, done => foldMembers more (done.put k (value s))

end

/-- A reader of one value. -/
abbrev Reader : Type := Cursor → Except SyntaxError (Source × Cursor)

/-- The number of containers that may be open at once. -/
def depthLimit : Nat := 127

/-- Reads the items of an array behind its bracket, up to its end; `bound` is at least the number
of characters left. -/
def readItems (item : Reader) : (bound : Nat) → Cursor →
    Except SyntaxError (List Source × Cursor)
  | 0, c => .error (c.faultNext .endInList)
  | bound + 1, c => do
    let (first, c) ← item c
    let c := c.skipBlanks
    match c.rest with
    | [] => .error (c.faultNext .endInList)
    | ']' :: _ => .ok ([first], c.advance)
    | ',' :: _ =>
      let c := c.advance.skipBlanks
      match c.rest with
      | [] => .error (c.faultNext .endInValue)
      | ']' :: _ => .error (c.faultNext .trailingComma)
      | _ =>
        let (others, c) ← readItems item bound c
        .ok (first :: others, c)
    | _ => .error (c.faultNext .listSeparatorExpected)

/-- Passes over the colon between a key and its value. -/
def skipColon (c : Cursor) : Except SyntaxError Cursor :=
  let c := c.skipBlanks
  match c.rest with
  | [] => .error (c.faultNext .endInObject)
  | ':' :: _ => .ok c.advance
  | _ => .error (c.faultNext .colonExpected)

/-- Reads the members of an object from a key on, up to its end; `bound` is at least the number of
characters left. -/
def readMembers (item : Reader) : (bound : Nat) → Cursor →
    Except SyntaxError (List (String × Source) × Cursor)
  | 0, c => .error (c.faultNext .endInObject)
  | bound + 1, c =>
    match c.rest with
    | '"' :: _ => do
      let (key, c) ← Quoted.read c.advance
      let c ← skipColon c
      let (first, c) ← item c
      let c := c.skipBlanks
      match c.rest with
      | [] => .error (c.faultNext .endInObject)
      | '\x7d' :: _ => .ok ([(key, first)], c.advance)
      | ',' :: _ =>
        let c := c.advance.skipBlanks
        match c.rest with
        | [] => .error (c.faultNext .endInValue)
        | '\x7d' :: _ => .error (c.faultNext .trailingComma)
        | _ =>
          let (others, c) ← readMembers item bound c
          .ok ((key, first) :: others, c)
      | _ => .error (c.faultNext .objectSeparatorExpected)
    | _ => .error (c.faultNext .keyExpected)

/-- Reads the items of an array behind its bracket. -/
def readArray (item : Reader) (c : Cursor) : Except SyntaxError (List Source × Cursor) :=
  let c := c.skipBlanks
  match c.rest with
  | [] => .error (c.faultNext .endInList)
  | ']' :: _ => .ok ([], c.advance)
  | _ => readItems item (c.rest.length + 1) c

/-- Reads the members of an object behind its brace. -/
def readObject (item : Reader) (c : Cursor) :
    Except SyntaxError (List (String × Source) × Cursor) :=
  let c := c.skipBlanks
  match c.rest with
  | [] => .error (c.faultNext .endInObject)
  | '\x7d' :: _ => .ok ([], c.advance)
  | _ => readMembers item (c.rest.length + 1) c

/-- Reads a value that is not a container. -/
def readScalar (c : Cursor) : Except SyntaxError (Source × Cursor) :=
  match c.rest with
  | [] => .error (c.faultNext .endInValue)
  | 'n' :: _ => do
    let c ← c.advance.expectWord "ull"
    .ok (.null c.position, c)
  | 't' :: _ => do
    let c ← c.advance.expectWord "rue"
    .ok (.bool true c.position, c)
  | 'f' :: _ => do
    let c ← c.advance.expectWord "alse"
    .ok (.bool false c.position, c)
  | '"' :: _ => do
    let (s, c) ← Quoted.read c.advance
    .ok (.str s c.position, c)
  | d :: _ =>
    if Numeral.starts d then do
      let (n, c) ← Numeral.read c
      .ok (.num n c.position, c)
    else .error (c.faultNext .valueExpected)

/-- Reads a value in which at most `depth` containers may be open at once. -/
def read (depth : Nat) (c : Cursor) : Except SyntaxError (Source × Cursor) :=
  let c := c.skipBlanks
  match c.rest with
  | '[' :: _ =>
    match depth with
    | 0 => .error (c.faultNext .tooDeep)
    | depth + 1 => (readArray (read depth) c.advance).map fun (items, left) =>
      (.arr items c.position, left)
  | '\x7b' :: _ =>
    match depth with
    | 0 => .error (c.faultNext .tooDeep)
    | depth + 1 => (readObject (read depth) c.advance).map fun (members, left) =>
      (.obj members c.position, left)
  | _ => readScalar c

/-- Only blanks may follow the value of a text. -/
def expectEnd (c : Cursor) : Except SyntaxError Unit :=
  let c := c.skipBlanks
  if c.rest.isEmpty then .ok () else .error (c.faultNext .trailingCharacters)

def ofText? (text : String) : Except SyntaxError Source := do
  let (s, c) ← read depthLimit (.ofString text)
  expectEnd c
  .ok s

end Source

/-- The value of a text, repeated keys folded. -/
def Json.ofText? (text : String) : Except SyntaxError Json :=
  (Source.ofText? text).map Source.value

end FeatureFlags
