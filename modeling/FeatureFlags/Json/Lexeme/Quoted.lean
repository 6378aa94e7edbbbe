import FeatureFlags.Json.Cursor

/-!
# Strings in a JSON text

`Quoted.read` reads a string behind its opening quote and decodes its escapes; a character
outside the first plane is written as two escapes, a leading and a trailing surrogate.
`Quoted.skip` passes over a string whose value is not wanted, and is less strict: it lets any four
hexadecimal digits be an escape.
-/

namespace FeatureFlags.Quoted

/-- The place at the end of a text. -/
def endOf (p : Position) (text : List Char) : Position :=
  text.foldl Position.after p

/-- The value of a hexadecimal digit. -/
def hexValue? (c : Char) : Option Nat :=
  if c.isDigit then some (c.toNat - '0'.toNat)
  else if 'a' ≤ c ∧ c ≤ 'f' then some (c.toNat - 'a'.toNat + 10)
  else if 'A' ≤ c ∧ c ≤ 'F' then some (c.toNat - 'A'.toNat + 10)
  else none

/-- The number that hexadecimal digits write. -/
def hexNumber? (digits : List Char) : Option Nat :=
  digits.foldl (fun n? c => n?.bind fun n => (hexValue? c).map (16 * n + ·)) (some 0)

/-- The number in the next four bytes. All four count as read, whatever stands there; a text
that ends before them counts as read to its end. -/
def hexEscape (text : List Char) (p : Position) : Except SyntaxError Nat :=
  let four := text.take 4
  if four.foldr (fun c n => c.utf8Size + n) 0 < 4 then .error ⟨.endInString, endOf p four⟩
  else match hexNumber? four with
    | some n => .ok n
    | none => .error ⟨.badEscape, p.afterSome text 4⟩

/-- The character for the letter of a short escape. -/
def shortEscape? (c : Char) : Option Char :=
  if c = '"' then some '"'
  else if c = '\\' then some '\\'
  else if c = '/' then some '/'
  else if c = 'b' then some (Char.ofNat 8)
  else if c = 'f' then some (Char.ofNat 12)
  else if c = 'n' then some '\n'
  else if c = 'r' then some '\r'
  else if c = 't' then some '\t'
  else none

/-- The next byte, which has to be `c`: one of the two that join a pair of surrogates. -/
def expectJoint (c : Char) (text : List Char) (p : Position) :
    Except SyntaxError (List Char × Position) :=
  match text with
  | [] => .error ⟨.endInString, p⟩
  | head :: more =>
    if head = c then .ok (more, p.after head) else .error ⟨.escapeCutShort, p.into head⟩

/-- The character that an escape behind its `u` stands for, and the characters it takes up. -/
def unicodeEscape (text : List Char) (p : Position) : Except SyntaxError (Char × Nat) := do
  let lead ← hexEscape text p
  let p := p.afterSome text 4
  if 0xDC00 ≤ lead ∧ lead ≤ 0xDFFF then .error ⟨.loneSurrogate, p⟩
  else if lead < 0xD800 ∨ 0xDBFF < lead then .ok (Char.ofNat lead, 4)
  else
    let (text, p) ← expectJoint '\\' (text.drop 4) p
    let (text, p) ← expectJoint 'u' text p
    let trail ← hexEscape text p
    if trail < 0xDC00 ∨ 0xDFFF < trail then .error ⟨.loneSurrogate, p.afterSome text 4⟩
    else .ok (Char.ofNat (0x10000 + (lead - 0xD800) * 0x400 + (trail - 0xDC00)), 10)

/-- The character that an escape behind its backslash stands for, and the characters it takes
up. -/
def escape (text : List Char) (p : Position) : Except SyntaxError (Char × Nat) :=
  match text with
  | [] => .error ⟨.endInString, p⟩
  | c :: more =>
    match shortEscape? c with
    | some decoded => .ok (decoded, 1)
    | none =>
      if c = 'u' then (unicodeEscape more (p.after c)).map fun (d, n) => (d, n + 1)
      else .error ⟨.badEscape, p.into c⟩

/-- The number of characters that an escape behind its backslash takes up. -/
def escapeLength (text : List Char) (p : Position) : Except SyntaxError Nat :=
  match text with
  | [] => .error ⟨.endInString, p⟩
  | c :: more =>
    if (shortEscape? c).isSome then .ok 1
    else if c = 'u' then (hexEscape more (p.after c)).map fun _ => 5
    else .error ⟨.badEscape, p.into c⟩

/-- Reads to the closing quote. `ahead` characters belong to an escape that is decoded already;
`read` holds the string so far, backwards. -/
def readFrom : List Char → Position → (ahead : Nat) → (read : List Char) →
    Except SyntaxError (String × Cursor)
  | [], p, _, _ => .error ⟨.endInString, p⟩
  | c :: more, p, ahead + 1, read => readFrom more (p.after c) ahead read
  | c :: more, p, 0, read =>
    let p := p.after c
    if c = '"' then .ok (String.ofList read.reverse, ⟨more, p⟩)
    else if c = '\\' then
      match escape more p with
      | .ok (decoded, length) => readFrom more p length (decoded :: read)
      | .error e => .error e
    else if c.toNat < 32 then .error ⟨.controlCharacter, p⟩
    else readFrom more p 0 (c :: read)

/-- Reads a string behind its opening quote. -/
def read (c : Cursor) : Except SyntaxError (String × Cursor) :=
  readFrom c.rest c.position 0 []

/-- Passes to the closing quote. `ahead` characters belong to an escape that is known already. -/
def skipFrom : List Char → Position → (ahead : Nat) → Except SyntaxError Cursor
  | [], p, _ => .error ⟨.endInString, p⟩
  | c :: more, p, ahead + 1 => skipFrom more (p.after c) ahead
  | c :: more, p, 0 =>
    if c = '"' then .ok ⟨more, p.after c⟩
    else if c = '\\' then
      match escapeLength more (p.after c) with
      | .ok length => skipFrom more (p.after c) length
      | .error e => .error e
    else if c.toNat < 32 then .error ⟨.controlCharacter, p⟩
    else skipFrom more (p.after c) 0

/-- Passes over a string behind its opening quote. -/
def skip (c : Cursor) : Except SyntaxError Cursor :=
  skipFrom c.rest c.position 0

end FeatureFlags.Quoted
