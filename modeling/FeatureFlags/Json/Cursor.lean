/-!
# Reading position

A text is read as characters, but places in it are counted as its UTF-8 bytes are: a line from
1, and in the line the bytes read so far. A `Cursor` is what is left of the text together with
the place reached. A fault is reported either at the place reached, or one byte further, at the
byte that stands in the way.
-/

namespace FeatureFlags

/-- A place in a text: the line, from 1, and the bytes read in it. -/
structure Position where
  line : Nat
  column : Nat
  deriving DecidableEq

namespace Position

/-- Before the first character. -/
def start : Position := ⟨1, 0⟩

/-- After `bytes` bytes of the character. A line feed has one byte and starts a line. -/
def afterBytes (p : Position) (c : Char) (bytes : Nat) : Position :=
  if c = '\n' then ⟨p.line + 1, 0⟩ else ⟨p.line, p.column + bytes⟩

/-- After the character. -/
def after (p : Position) (c : Char) : Position :=
  p.afterBytes c c.utf8Size

/-- After the first byte of the character. -/
def into (p : Position) (c : Char) : Position :=
  p.afterBytes c 1

/-- After as many bytes of the text as asked for, even inside a character; the end of the text
if there are fewer. -/
def afterSome (p : Position) : List Char → Nat → Position
  | [], _ => p
  | c :: more, bytes =>
    if bytes = 0 then p
    else if bytes ≤ c.utf8Size then p.afterBytes c bytes
    else (p.after c).afterSome more (bytes - c.utf8Size)

end Position

/-- What can be wrong with a text that is to be JSON. -/
inductive Fault
  | endInList
  | endInObject
  | endInString
  | endInValue
  | colonExpected
  | listSeparatorExpected
  | objectSeparatorExpected
  | wordExpected
  | valueExpected
  | keyExpected
  | badEscape
  | badNumber
  | numberOutOfRange
  | controlCharacter
  | loneSurrogate
  | escapeCutShort
  | trailingComma
  | trailingCharacters
  | tooDeep
  deriving DecidableEq

def Fault.message : Fault → String
  | .endInList => "EOF while parsing a list"
  | .endInObject => "EOF while parsing an object"
  | .endInString => "EOF while parsing a string"
  | .endInValue => "EOF while parsing a value"
  | .colonExpected => "expected `:`"
  | .listSeparatorExpected => "expected `,` or `]`"
  | .objectSeparatorExpected => "expected `,` or `\x7d`"
  | .wordExpected => "expected ident"
  | .valueExpected => "expected value"
  | .keyExpected => "key must be a string"
  | .badEscape => "invalid escape"
  | .badNumber => "invalid number"
  | .numberOutOfRange => "number out of range"
  | .controlCharacter => "control character (\\u0000-\\u001F) found while parsing a string"
  | .loneSurrogate => "lone leading surrogate in hex escape"
  | .escapeCutShort => "unexpected end of hex escape"
  | .trailingComma => "trailing comma"
  | .trailingCharacters => "trailing characters"
  | .tooDeep => "recursion limit exceeded"

/-- The text of a complaint with the place it is about. -/
def Position.locate (p : Position) (message : String) : String :=
  message ++ " at line " ++ toString p.line ++ " column " ++ toString p.column

/-- A fault with its place. -/
structure SyntaxError where
  fault : Fault
  position : Position
  deriving DecidableEq

/-- The text of a syntax error. -/
def SyntaxError.message (e : SyntaxError) : String :=
  e.position.locate e.fault.message

/-- What is left of a text, and the place reached. -/
structure Cursor where
  rest : List Char
  position : Position

namespace Cursor

/-- At the start of a text. -/
def ofString (text : String) : Cursor := ⟨text.toList, .start⟩

/-- Past the next character, if there is one. -/
def advance (c : Cursor) : Cursor :=
  match c.rest with
  | [] => c
  | head :: more => ⟨more, c.position.after head⟩

/-- The place of the next byte; the place reached, at the end of the text. -/
def peekPosition (c : Cursor) : Position :=
  match c.rest with
  | [] => c.position
  | head :: _ => c.position.into head

/-- A fault at the place reached. -/
def faultHere (c : Cursor) (fault : Fault) : SyntaxError := ⟨fault, c.position⟩

/-- A fault at the next byte. -/
def faultNext (c : Cursor) (fault : Fault) : SyntaxError := ⟨fault, c.peekPosition⟩

/-- Whether the character may stand between the parts of a JSON text. -/
def isBlank (c : Char) : Bool :=
  c = ' ' || c = '\n' || c = '\t' || c = '\r'

/-- Past the blanks at the front of a text. -/
def pastBlanks : List Char → Position → Cursor
  | [], p => ⟨[], p⟩
  | c :: more, p => if isBlank c then pastBlanks more (p.after c) else ⟨c :: more, p⟩

/-- Past the blanks. -/
def skipBlanks (c : Cursor) : Cursor := pastBlanks c.rest c.position

/-- Past the digits at the front of a text. -/
def pastDigits : List Char → Position → Cursor
  | [], p => ⟨[], p⟩
  | c :: more, p => if c.isDigit then pastDigits more (p.after c) else ⟨c :: more, p⟩

/-- Past the digits. -/
def skipDigits (c : Cursor) : Cursor := pastDigits c.rest c.position

/-- Past the characters of a word, which must stand next. -/
def expectChars : List Char → Cursor → Except SyntaxError Cursor
  | [], c => .ok c
  | w :: word, c =>
    match c.rest with
    | [] => .error (c.faultHere .endInValue)
    | head :: _ =>
      if head = w then expectChars word c.advance
      else .error ⟨.wordExpected, c.position.into head⟩

/-- Past a word, which must stand next. -/
def expectWord (c : Cursor) (word : String) : Except SyntaxError Cursor :=
  expectChars word.toList c

end Cursor

end FeatureFlags
