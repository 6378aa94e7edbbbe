import FeatureFlags.Files.Path

/-!
# Arguments

`Command.ofArguments` reads a command line. Options stand before or behind the path, each at most
once; a value follows its option as the next argument or behind an equals sign; `--` ends the
options. Arguments are bytes: names of commands and options and the format of a report have to be
texts, paths do not. They are read from left to right, and a request for help or the version is
granted as soon as it is met.
-/

namespace FeatureFlags

inductive Command
  | parse (file : Path) (output? : Option Path) (pretty allowRepeatedKeys : Bool)
  | validate (file : Path) (json : Bool)
  | lint (path : Path) (format : String) (strict quiet : Bool)
  | help
  | version
  deriving DecidableEq

namespace Command

inductive Verb
  | parse
  | validate
  | lint
  deriving DecidableEq

/-- The options of all commands. -/
inductive Switch
  | output | pretty | allowDuplicateKeys | json | format | strict | quiet | help
  deriving DecidableEq

def Verb.ofName? (name : RawText) : Option Verb :=
  if name = "parse" then some .parse
  else if name = "validate" then some .validate
  else if name = "lint" then some .lint
  else none

/-- The long names of a command's options. -/
def Verb.switches : Verb → List (RawText × Switch)
  | .parse =>
    [("output", .output), ("pretty", .pretty), ("allow-duplicate-keys", .allowDuplicateKeys),
      ("help", .help)]
  | .validate => [("json", .json), ("help", .help)]
  | .lint => [("format", .format), ("strict", .strict), ("quiet", .quiet), ("help", .help)]

def Verb.switch? (verb : Verb) (name : RawText) : Option Switch :=
  (verb.switches.find? (·.1 == name)).map (·.2)

def Verb.switchOfLetter? (verb : Verb) (letter : UInt8) : Option Switch :=
  if verb = .lint ∧ letter = 'q'.toUInt8 then some .quiet
  else if letter = 'h'.toUInt8 then some .help
  else none

def Switch.takesValue : Switch → Bool
  | .output | .format => true
  | _ => false

/-- Whether an option may have a value: a path must not be empty, and a format must be a text. -/
def Switch.admits (s : Switch) (value : RawText) : Bool :=
  if s = .format then value.isText else value != ""

/-- An argument as it looks. -/
inductive Shape
  | escape
  | long (name : RawText) (value? : Option RawText)
  | letters (letters : List UInt8)
  | value (text : RawText)

def hyphen : UInt8 := '-'.toUInt8

def equalsSign : UInt8 := '='.toUInt8

/-- What stands before the first equals sign, and what follows it. -/
def splitEquals : List UInt8 → List UInt8 × Option (List UInt8)
  | [] => ([], none)
  | b :: more =>
    if b = equalsSign then ([], some more)
    else (b :: (splitEquals more).1, (splitEquals more).2)

/-- What an argument looks like. A single hyphen is a value. -/
def shape (arg : RawText) : Shape :=
  match arg.bytes with
  | first :: second :: more =>
    if first ≠ hyphen then .value arg
    else if second ≠ hyphen then .letters (second :: more)
    else if more = [] then .escape
    else .long ⟨(splitEquals more).1⟩ ((splitEquals more).2.map RawText.mk)
  | _ => .value arg

/-- What has been read of a command's arguments: the path, options without a value, and options
with one. -/
structure Given where
  path? : Option Path := none
  switches : List Switch := []
  values : List (Switch × RawText) := []

namespace Given

def has (g : Given) (s : Switch) : Bool :=
  g.switches.contains s || g.values.any (·.1 == s)

def value? (g : Given) (s : Switch) : Option RawText :=
  (g.values.find? (·.1 == s)).map (·.2)

/-- Gives the path; nothing if there is one already, or it is empty. -/
def setPath? (g : Given) (path : Path) : Option Given :=
  if g.path?.isSome ∨ path = "" then none else some { g with path? := some path }

/-- Gives an option without a value; nothing if it is there already. -/
def setSwitch? (g : Given) (s : Switch) : Option Given :=
  if g.has s then none else some { g with switches := s :: g.switches }

/-- Gives an option a value; nothing if it is there already, or may not have that value. -/
def setValue? (g : Given) (s : Switch) (value : RawText) : Option Given :=
  if g.has s ∨ !s.admits value then none else some { g with values := (s, value) :: g.values }

/-- The command, if its path is given. -/
def command? (g : Given) (verb : Verb) : Option Command :=
  g.path?.map fun p =>
    match verb with
    | .parse => .parse p (g.value? .output) (g.has .pretty) (g.has .allowDuplicateKeys)
    | .validate => .validate p (g.has .json)
    | .lint =>
      let format := ((g.value? .format).bind (·.text?)).getD "text"
      .lint p format (g.has .strict) (g.has .quiet)

end Given

/-- What a bundle of letters gives; `inr` for a request for help. -/
def readLetters (verb : Verb) (g : Given) : List UInt8 → Option (Given ⊕ Unit)
  | [] => some (.inl g)
  | letter :: more =>
    match verb.switchOfLetter? letter with
    | none => none
    | some .help => some (.inr ())
    | some s => (g.setSwitch? s).bind (readLetters verb · more)

/-- The arguments behind `--`: values only. -/
def readValues (verb : Verb) (g : Given) : List RawText → Option Command
  | [] => g.command? verb
  | text :: more => (g.setPath? text).bind (readValues verb · more)

/-- The arguments of a command; nothing if they make none. -/
def readArguments (verb : Verb) (g : Given) : List RawText → Option Command
  | [] => g.command? verb
  | arg :: more =>
    match shape arg with
    | .escape => readValues verb g more
    | .value text => (g.setPath? text).bind (readArguments verb · more)
    | .letters letters =>
      match readLetters verb g letters with
      | none => none
      | some (.inr _) => some .help
      | some (.inl g) => readArguments verb g more
    | .long name value? =>
      match verb.switch? name, value? with
      | none, _ => none
      | some s, some text =>
        if s.takesValue then (g.setValue? s text).bind (readArguments verb · more) else none
      | some s, none =>
        if s = .help then some .help
        else if s.takesValue then
          match more with
          | [] => none
          | next :: more =>
            match shape next with
            | .value text => (g.setValue? s text).bind (readArguments verb · more)
            | _ => none
        else (g.setSwitch? s).bind (readArguments verb · more)

/-- A command line that starts with `help`: it may name one command. -/
def helpOn : List RawText → Option Command
  | [] => some .help
  | [name] => if (Verb.ofName? name).isSome ∨ name = "help" then some .help else none
  | _ => none

/-- The request that letters make before any command. -/
def ofLetters? : List UInt8 → Option Command
  | [] => none
  | letter :: _ =>
    if letter = 'h'.toUInt8 then some .help
    else if letter = 'V'.toUInt8 then some .version
    else none

/-- Reads a command line; nothing if it makes no command. -/
def ofArguments? : List RawText → Option Command
  | [] => none
  | arg :: more =>
    match shape arg with
    | .value name =>
      if name = "help" then helpOn more
      else (Verb.ofName? name).bind (readArguments · {} more)
    | .letters letters => ofLetters? letters
    | .long name none =>
      if name = "help" then some .help else if name = "version" then some .version else none
    | _ => none

end Command

end FeatureFlags
