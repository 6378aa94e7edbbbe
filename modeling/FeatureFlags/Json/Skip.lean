import FeatureFlags.Json.Source

/-!
# Passing over a value

`Cursor.skipValue` moves behind a JSON value that nobody wants to know. It builds nothing, so it
needs no limit on depth, and it checks less than a reader does: no range of numbers and no pairing
of surrogates.
-/

namespace FeatureFlags

inductive Container
  | array
  | object
  deriving DecidableEq

namespace Container

def closes (k : Container) (c : Char) : Bool :=
  match k with
  | .array => c = ']'
  | .object => c = '\x7d'

/-- The fault of a text that ends inside the container. -/
def endFault : Container → Fault
  | .array => .endInList
  | .object => .endInObject

/-- The fault of a value that is followed neither by a comma nor by the end of the container. -/
def separatorFault : Container → Fault
  | .array => .listSeparatorExpected
  | .object => .objectSeparatorExpected

end Container

namespace Cursor

/-- Past a value that is not a container. -/
def skipScalar (c : Cursor) : Except SyntaxError Cursor :=
  match c.rest with
  | [] => .error (c.faultNext .endInValue)
  | 'n' :: _ => c.advance.expectWord "ull"
  | 't' :: _ => c.advance.expectWord "rue"
  | 'f' :: _ => c.advance.expectWord "alse"
  | '"' :: _ => Quoted.skip c.advance
  | d :: _ => if Numeral.starts d then Numeral.skip c else .error (c.faultNext .valueExpected)

/-- Past a key and its colon, where the container has keys. -/
def skipKey (k : Container) (c : Cursor) : Except SyntaxError Cursor :=
  match k with
  | .array => .ok c
  | .object =>
    let c := c.skipBlanks
    match c.rest with
    | [] => .error (c.faultNext .endInObject)
    | '"' :: _ => (Quoted.skip c.advance).bind Source.skipColon
    | _ => .error (c.faultNext .keyExpected)

/-- What comes next while a value is passed over. -/
inductive SkipStage
  | value
  | afterOpening
  | afterValue

/-- Passes over what is left of a value inside open containers, innermost first. A stage uses up
a character or is followed by one that does, so `bound` is enough at three times the characters
left. -/
def skipStages : (bound : Nat) → SkipStage → List Container → Cursor → Except SyntaxError Cursor
  | 0, _, _, c => .error (c.faultNext .endInValue)
  | _ + 1, .afterValue, [], c => .ok c
  | _ + 1, .afterOpening, [], c => .ok c
  | bound + 1, .value, open', c =>
    let c := c.skipBlanks
    match c.rest with
    | '[' :: _ => skipStages bound .afterOpening (.array :: open') c.advance
    | '\x7b' :: _ => skipStages bound .afterOpening (.object :: open') c.advance
    | _ => (skipScalar c).bind (skipStages bound .afterValue open')
  | bound + 1, .afterOpening, k :: open', c =>
    let c := c.skipBlanks
    match c.rest with
    | [] => .error (c.faultNext k.endFault)
    | d :: _ =>
      if k.closes d then skipStages bound .afterValue open' c.advance
      else (skipKey k c).bind (skipStages bound .value (k :: open'))
  | bound + 1, .afterValue, k :: open', c =>
    let c := c.skipBlanks
    match c.rest with
    | [] => .error (c.faultNext k.endFault)
    | d :: _ =>
      if d = ',' then (skipKey k c.advance).bind (skipStages bound .value (k :: open'))
      else if k.closes d then skipStages bound .afterValue open' c.advance
      else .error (c.faultNext k.separatorFault)

def skipValue (c : Cursor) : Except SyntaxError Cursor :=
  skipStages (3 * c.rest.length + 3) .value [] c

end Cursor

end FeatureFlags
