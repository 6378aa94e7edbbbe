import FeatureFlags.Binary64.Shortest
import FeatureFlags.Json.Basic

/-!
# Writing JSON

`Json.compact` writes a value without blanks, `Json.pretty` with an indent of two spaces and
empty containers closed at once. In strings, the quote, the backslash and the characters below
the space are escaped, by a letter where there is one; everything else stands as it is.
-/

namespace FeatureFlags

/-- Integers in decimal, floating-point numbers by their shortest text. -/
def Number.text : Number → String
  | .int value => toString value
  | .float value => value.text

namespace Json

/-- The lower-case hexadecimal digit of a number below 16. -/
def hexDigit (n : Nat) : Char :=
  Char.ofNat (if n < 10 then '0'.toNat + n else 'a'.toNat + (n - 10))

/-- A character inside a quoted string. -/
def escapeChar (c : Char) : List Char :=
  if c = '"' then ['\\', '"']
  else if c = '\\' then ['\\', '\\']
  else if c = '\n' then ['\\', 'n']
  else if c = '\r' then ['\\', 'r']
  else if c = '\t' then ['\\', 't']
  else if c.toNat = 8 then ['\\', 'b']
  else if c.toNat = 12 then ['\\', 'f']
  else if c.toNat < 32 then ['\\', 'u', '0', '0', hexDigit (c.toNat / 16), hexDigit (c.toNat % 16)]
  else [c]

def quote (s : String) : String :=
  String.ofList ('"' :: s.toList.flatMap escapeChar ++ ['"'])

mutual

/-- The text of a value without blanks. -/
def compact : Json → String
  | .null => "null"
  | .bool true => "true"
  | .bool false => "false"
  | .num n => n.text
  | .str s => quote s
  | .arr items => "[" ++ ",".intercalate (compactItems items) ++ "]"
  | .obj ms => "\x7b" ++ ",".intercalate (compactMembers ms) ++ "\x7d"

def compactItems : List Json → List String
  | [] => []
  | v :: more => compact v :: compactItems more

def compactMembers : List (String × Json) → List String
  | [] => []
  | (k, v) :: more => (quote k ++ ":" ++ compact v) :: compactMembers more

end

/-- The start of a line at a depth. -/
def newline (depth : Nat) : String :=
  String.ofList ('\n' :: List.replicate (2 * depth) ' ')

/-- Entries of a container on lines of their own; none makes an empty container. -/
def block (depth : Nat) (left right : String) : List String → String
  | [] => left ++ right
  | entries =>
    left ++ newline (depth + 1) ++ ("," ++ newline (depth + 1)).intercalate entries
      ++ newline depth ++ right

mutual

/-- The indented text of a value whose first line stands at a depth. -/
def prettyAt (depth : Nat) : Json → String
  | .arr items => block depth "[" "]" (prettyItems (depth + 1) items)
  | .obj ms => block depth "\x7b" "\x7d" (prettyMembers (depth + 1) ms)
  | v => v.compact

def prettyItems (depth : Nat) : List Json → List String
  | [] => []
  | v :: more => prettyAt depth v :: prettyItems depth more

def prettyMembers (depth : Nat) : List (String × Json) → List String
  | [] => []
  | (k, v) :: more => (quote k ++ ": " ++ prettyAt depth v) :: prettyMembers depth more

end

/-- The indented text of a value. -/
def pretty (v : Json) : String :=
  v.prettyAt 0

end Json

end FeatureFlags
