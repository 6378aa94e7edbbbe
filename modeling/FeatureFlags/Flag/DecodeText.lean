import FeatureFlags.Flag.Decode
import FeatureFlags.Json.Skip

/-!
# Flags straight from a text

A flag, a state or metadata can be read from a text without a JSON value in between. The text is
then read only as far as the first fault, a setting given twice is a fault, and every fault inside
a container has a place: where the reader stood when it noticed, or, if the fault is about what
the container lacks or holds, behind the container's end.
-/

namespace FeatureFlags

/-- Why a text does not hold what it should: it is not JSON, or its value does not fit. A fault
of the value has a place unless no container surrounds it. -/
inductive TextFault
  | notJson (error : SyntaxError)
  | misfit (fault : DecodeFault) (position? : Option Position)

def TextFault.message : TextFault → String
  | .notJson e => e.message
  | .misfit fault (some p) => p.locate fault.message
  | .misfit fault none => fault.message

namespace Decoder

/-- A fault, and what was left of the text when it was noticed. -/
structure Failure where
  fault : TextFault
  left : Cursor

/-- What was read, with what is left of the text. -/
abbrev Result (α : Type) : Type := Except Failure (α × Cursor)

/-- A syntax error ends the reading where it is. -/
def ofSyntax {α : Type} (c : Cursor) : Except SyntaxError α → Except Failure α
  | .ok a => .ok a
  | .error e => .error ⟨.notJson e, c⟩

/-- A fault that is to be placed later. -/
def unplaced {α : Type} (c : Cursor) : Except DecodeFault α → Result α
  | .ok a => .ok (a, c)
  | .error fault => .error ⟨.misfit fault none, c⟩

/-- A fault at the place reached. -/
def placed {α : Type} (c : Cursor) : Except DecodeFault α → Result α
  | .ok a => .ok (a, c)
  | .error fault => .error ⟨.misfit fault (some c.position), c⟩

/-- Gives a fault without a place the one that is reached by `close` from where it was noticed. -/
def Failure.placeAfter (close : Cursor → Cursor) (f : Failure) : Failure :=
  match f.fault with
  | .misfit fault none => ⟨.misfit fault (some (close f.left).position), close f.left⟩
  | _ => f

/-- Past the end of an object, if it is next. -/
def closeObject (c : Cursor) : Cursor :=
  let c := c.skipBlanks
  if c.rest.head? = some '\x7d' then c.advance else c

/-- Past the end of an array, or past the comma before another item. -/
def closeArray (c : Cursor) : Cursor :=
  let c := c.skipBlanks
  if c.rest.head? = some ']' then c.advance
  else if c.rest.head? = some ',' then c.advance.skipBlanks
  else c

/-- The complaint about a value of the wrong kind, which stands next. -/
def wrongType {α : Type} (expected : Expected) (c : Cursor) : Result α :=
  match c.rest with
  | '[' :: _ => placed c (.error (.wrongType .sequence expected))
  | '\x7b' :: _ => placed c (.error (.wrongType .map expected))
  | _ =>
    match Source.readScalar c with
    | .error e => .error ⟨.notJson e, c⟩
    | .ok (s, left) => placed left (.error (.wrongType (.ofJson s.value) expected))

def string (expected : Expected) (c : Cursor) : Result String :=
  let c := c.skipBlanks
  match c.rest with
  | '"' :: _ => ofSyntax c (Quoted.read c.advance)
  | _ => wrongType expected c

/-- Null for none, or what `value` reads. -/
def optional {α : Type} (value : Cursor → Result α) (c : Cursor) : Result (Option α) :=
  let c := c.skipBlanks
  match c.rest with
  | 'n' :: _ => (ofSyntax c (c.advance.expectWord "ull")).map (none, ·)
  | _ => (value c).map fun (a, left) => (some a, left)

/-- Any value in which `depth` more containers may be open. -/
def json (depth : Nat) (c : Cursor) : Result Json :=
  (ofSyntax c (Source.read depth c)).map fun (s, left) => (s.value, left)

def members (depth : Nat) (c : Cursor) : Result Members :=
  let c := c.skipBlanks
  match c.rest with
  | '\x7b' :: _ =>
    (ofSyntax c (Source.readObject (Source.read depth) c.advance)).map fun (ms, left) =>
      (Source.foldMembers ms [], left)
  | _ => wrongType .map c

/-- Where the next key starts; nothing at the end of the object. -/
def nextKey? (first : Bool) (c : Cursor) : Except SyntaxError (Option Cursor) :=
  let c := c.skipBlanks
  match c.rest with
  | [] => .error (c.faultNext .endInObject)
  | '\x7d' :: _ => .ok none
  | d :: _ =>
    if !first && d ≠ ',' then .error (c.faultNext .objectSeparatorExpected)
    else
      let c := if first then c else c.advance.skipBlanks
      match c.rest with
      | [] => .error (c.faultNext .endInValue)
      | '"' :: _ => .ok (some c.advance)
      | '\x7d' :: _ => .error (c.faultNext .trailingComma)
      | _ => .error (c.faultNext .keyExpected)

/-- Runs `entry` on each key of an object, from behind the key; stops before the closing brace.
`bound` is at least the number of characters left. -/
def entries {σ : Type} (entry : σ → String → Cursor → Result σ) :
    (bound : Nat) → (first : Bool) → σ → Cursor → Result σ
  | 0, _, _, c => .error ⟨.notJson (c.faultNext .endInObject), c⟩
  | bound + 1, first, s, c =>
    match nextKey? first c with
    | .error e => .error ⟨.notJson e, c⟩
    | .ok none => .ok (s, c.skipBlanks)
    | .ok (some c) =>
      match Quoted.read c with
      | .error e => .error ⟨.notJson e, c⟩
      | .ok (key, c) =>
        match entry s key c with
        | .error f => .error f
        | .ok (s, c) => entries entry bound false s c

/-- Reads an object behind its brace by its keys, and finishes behind its end. -/
def object {σ α : Type} (entry : σ → String → Cursor → Result σ)
    (finish : σ → Except DecodeFault α) (s : σ) (c : Cursor) : Result α :=
  let whole : Result α := match entries entry (c.rest.length + 1) true s c with
    | .error f => .error f
    | .ok (s, c) => unplaced c (finish s)
  match whole with
  | .ok (a, c) => .ok (a, closeObject c)
  | .error f => .error (f.placeAfter closeObject)

/-- A value behind a key: what `value` reads behind the colon. -/
def valueOf {α : Type} (value : Cursor → Result α) (c : Cursor) : Result α :=
  (ofSyntax c (Source.skipColon c)).bind value

/-- Whether another item stands next in an array. -/
def nextItem? (first : Bool) (c : Cursor) : Except SyntaxError (Option Cursor) :=
  let c := c.skipBlanks
  match c.rest with
  | [] => .error (c.faultNext .endInList)
  | ']' :: _ => .ok none
  | d :: _ =>
    if first then .ok (some c)
    else if d ≠ ',' then .error (c.faultNext .listSeparatorExpected)
    else
      let c := c.advance.skipBlanks
      match c.rest with
      | [] => .error (c.faultNext .endInValue)
      | ']' :: _ => .error (c.faultNext .trailingComma)
      | _ => .ok (some c)

/-- The end of an array, which has to be next. -/
def endArray (c : Cursor) : Except SyntaxError Cursor :=
  let c := c.skipBlanks
  match c.rest with
  | [] => .error (c.faultNext .endInList)
  | ']' :: _ => .ok c.advance
  | ',' :: _ =>
    let c := c.advance.skipBlanks
    .error (c.faultNext (if c.rest.head? = some ']' then .trailingComma else .trailingCharacters))
  | _ => .error (c.faultNext .trailingCharacters)

def stateWord (expected : Expected) (c : Cursor) : Result FlagState :=
  (string expected c).bind fun (word, left) => placed left (FlagState.ofWord word)

def unit (c : Cursor) : Result Unit :=
  let c := c.skipBlanks
  match c.rest with
  | [] => .error ⟨.notJson (c.faultNext .endInValue), c⟩
  | 'n' :: _ => (ofSyntax c (c.advance.expectWord "ull")).map ((), ·)
  | _ => wrongType .unit c

/-- A state from its word, or from an object whose one member has that name and holds null. -/
def state (c : Cursor) : Result FlagState :=
  let c := c.skipBlanks
  match c.rest with
  | [] => .error ⟨.notJson (c.faultNext .endInValue), c⟩
  | '"' :: _ => stateWord .stateWord c
  | '\x7b' :: _ =>
    (stateWord .stateWord c.advance).bind fun (s, c) =>
      (valueOf unit c).bind fun (_, c) =>
        let c := c.skipBlanks
        match c.rest with
        | [] => .error ⟨.notJson (c.faultHere .endInObject), c⟩
        | '\x7d' :: _ => .ok (s, c.advance)
        | _ => .error ⟨.notJson (c.faultHere .valueExpected), c⟩
  | _ => .error ⟨.notJson (c.faultNext .valueExpected), c⟩

def metadataValue (depth : Nat) (c : Cursor) : Result MetadataValue :=
  (json depth c).bind fun (v, left) => unplaced left (MetadataValue.ofJson v)

/-- Metadata from an object of scalars. -/
def metadata (depth : Nat) (c : Cursor) : Result Metadata :=
  let c := c.skipBlanks
  match c.rest with
  | '\x7b' :: _ =>
    object
      (fun m key c => (valueOf (metadataValue depth) c).map fun (v, left) => (m.insert key v, left))
      .ok KeyMap.empty c.advance
  | _ => wrongType .map c

/-- One setting of a flag; values inside it may open `depth` more containers. -/
def field (depth : Nat) (d : FlagDraft) : FlagField → Cursor → Result FlagDraft
  | .variations, c =>
    (members (depth - 1) c).map fun (ms, c) => ({ d with variations? := some ms }, c)
  | .defaultVariant, c =>
    (optional (string .string) c).map fun (s?, c) => ({ d with rest.defaultVariant := s? }, c)
  | .state, c => (state c).map fun (s, c) => ({ d with rest.state := s }, c)
  | .targeting, c =>
    (optional (json depth) c).map fun (v?, c) => ({ d with rest.targeting := v? }, c)
  | .defaultRule, c =>
    (optional (json depth) c).map fun (v?, c) => ({ d with rest.defaultRule := v? }, c)
  | .bucketingKey, c =>
    (optional (string .string) c).map fun (s?, c) => ({ d with rest.bucketingKey := s? }, c)
  | .version, c =>
    (optional (string .string) c).map fun (s?, c) => ({ d with rest.version := s? }, c)
  | .metadata, c =>
    (metadata (depth - 1) c).map fun (m, c) => ({ d with rest.metadata := m }, c)

/-- The settings read so far, and the draft they make. -/
abbrev Settings : Type := List FlagField × FlagDraft

/-- One member of a flag. -/
def flagEntry (depth : Nat) (s : Settings) (key : String) (c : Cursor) : Result Settings :=
  match FlagField.ofName? key with
  | none => (valueOf (fun c => (ofSyntax c c.skipValue).map ((), ·)) c).map fun (_, c) => (s, c)
  | some f =>
    if f ∈ s.1 then unplaced c (.error (.repeatedField f.name))
    else (valueOf (field depth s.2 f) c).map fun (d, c) => ((f :: s.1, d), c)

/-- The settings of a flag by place, as many as there are. -/
def flagItems (depth : Nat) : List FlagField → (first : Bool) → FlagDraft → Cursor →
    Result FlagDraft
  | [], _, d, c => .ok (d, c)
  | f :: fs, first, d, c =>
    match nextItem? first c with
    | .error e => .error ⟨.notJson e, c⟩
    | .ok none => .ok (d, c)
    | .ok (some c) => (field depth d f c).bind fun (d, c) => flagItems depth fs false d c

/-- A flag from an object or an array. -/
def flag (depth : Nat) (c : Cursor) : Result FeatureFlag :=
  let finish (fault : DecodeFault) (d : FlagDraft) : Except DecodeFault FeatureFlag :=
    match d.finish? with
    | some f => .ok f
    | none => .error fault
  let c := c.skipBlanks
  match c.rest with
  | '\x7b' :: _ =>
    object (flagEntry (depth - 1))
      (fun s => finish (.missingField FlagField.variations.name) s.2) ([], {}) c.advance
  | '[' :: _ =>
    let fields := flagItems (depth - 1) FlagField.all true {} c.advance
    let whole : Result FeatureFlag := fields.bind fun (d, c) =>
      unplaced c (finish (.wrongLength 0 .flagFields) d)
    match whole with
    | .ok (f, c) => (ofSyntax c (endArray c)).map (f, ·)
    | .error f => .error (f.placeAfter closeArray)
  | _ => wrongType .flag c

def whole {α : Type} (value : Cursor → Result α) (text : String) : Except TextFault α :=
  match value (.ofString text) with
  | .error f => .error f.fault
  | .ok (a, c) =>
    match Source.expectEnd c with
    | .ok _ => .ok a
    | .error e => .error (.notJson e)

end Decoder

def FeatureFlag.ofText? (text : String) : Except TextFault FeatureFlag :=
  Decoder.whole (Decoder.flag Source.depthLimit) text

def FlagState.ofText? (text : String) : Except TextFault FlagState :=
  Decoder.whole Decoder.state text

def MetadataValue.ofText? (text : String) : Except TextFault MetadataValue :=
  Decoder.whole (Decoder.metadataValue Source.depthLimit) text

def Metadata.ofText? (text : String) : Except TextFault Metadata :=
  Decoder.whole (Decoder.metadata (Source.depthLimit - 1)) text

end FeatureFlags
