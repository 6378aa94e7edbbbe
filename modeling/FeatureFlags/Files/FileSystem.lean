import FeatureFlags.Files.Fault
import FeatureFlags.Files.Path

/-!
# File systems

A file system is a tree of files, directories and symbolic links together with a working
directory. `locate` follows a path through it, links included, to a location, which is a list of
names from the root free of links. At most forty links are followed on the way. A file has a number
of its own, by which its content is kept apart from the tree: names that stand for the same number,
in one directory or in several, are hard links to one file. Files and directories may be
unreadable: a path still leads to them and through them, but what a file holds and which entries a
directory has is not told.

Names, paths and the targets of links are bytes, which need not be UTF-8. Some things of a real file
system are left out: the limit on the length of a whole path, the permissions to write and to go
through a directory, and entries that are neither files, directories nor links. Nothing else
changes the file system while a command looks at it.
-/

namespace FeatureFlags

/-- What a file holds, and whether it can be read. -/
structure File where
  readable : Bool := true
  content : ByteArray := .empty

/-- What a name in a directory stands for. A file is given by its number. -/
inductive Entry
  | file (id : Nat)
  | link (target : Path)
  | dir (readable : Bool) (entries : List (RawText × Entry))

/-- The names from the root of the tree down to an entry. -/
abbrev Location : Type := List RawText

namespace Entry

/-- The entry of a name in a directory. -/
def child? : Entry → RawText → Option Entry
  | .dir _ es, name => (es.find? (·.1 == name)).map (·.2)
  | _, _ => none

/-- The entry at a location below this one. -/
def find? (e : Entry) : Location → Option Entry
  | [] => some e
  | name :: more => (e.child? name).bind (find? · more)

def entries : Entry → List (RawText × Entry)
  | .dir _ es => es
  | _ => []

/-- Whether the names in a directory can be read. -/
def isReadable : Entry → Bool
  | .dir readable _ => readable
  | .file _ | .link _ => true

/-- Sets the entry of a name. -/
def setIn : List (RawText × Entry) → RawText → Entry → List (RawText × Entry)
  | [], name, e => [(name, e)]
  | (n, d) :: more, name, e => if n = name then (n, e) :: more else (n, d) :: setIn more name e

/-- Sets the entry at a location, making the directories that lead to it. -/
def put (e : Entry) : Location → Entry → Entry
  | [], new => new
  | name :: more, new =>
    -- anything but a directory on the way is replaced by one
    .dir e.isReadable (setIn e.entries name (put ((e.child? name).getD (.dir true [])) more new))

mutual

/-- A number above those of all files in the tree. -/
def freshId : Entry → Nat
  | .file id => id + 1
  | .link _ => 0
  | .dir _ es => freshIdIn es

def freshIdIn : List (RawText × Entry) → Nat
  | [] => 0
  | (_, e) :: more => max (freshId e) (freshIdIn more)

end

end Entry

/-- A tree with the files in it, by their numbers, and a working directory. -/
structure FileSystem where
  root : Entry := .dir true []
  files : Nat → File := fun _ => {}
  workingDirectory : Location := []

/-- How far the names of a path lead before the next link. -/
inductive Reach
  | arrived (location : Location)
  | atLink (parent : Location) (target : Path) (rest : List RawText)

namespace FileSystem

/-- The number of links that may be followed on one path. -/
def linkLimit : Nat := 40

/-- The number of bytes that a name may have. -/
def nameLimit : Nat := 255

def entry? (fs : FileSystem) (location : Location) : Option Entry :=
  fs.root.find? location

def isDirAt (fs : FileSystem) (location : Location) : Bool :=
  match fs.entry? location with
  | some (.dir ..) => true
  | _ => false

/-- Follows names from a location up to the first link. An empty name and `.` stay, `..` goes up,
and all of them need a directory to start from. -/
def reach (fs : FileSystem) (location : Location) : List RawText → Except FileFault Reach
  | [] => .ok (.arrived location)
  | name :: more =>
    if !fs.isDirAt location then .error .notDirectory
    else if name = "" ∨ name = "." then fs.reach location more
    else if name = ".." then fs.reach location.dropLast more
    else if nameLimit < name.bytes.length then .error .nameTooLong
    else
      match fs.entry? (location ++ [name]) with
      | none => .error .notFound
      | some (.link target) => .ok (.atLink location target more)
      | some _ => fs.reach (location ++ [name]) more

/-- Where the target of a link in a directory starts. -/
def origin (parent : Location) (target : Path) : Location :=
  if target.bytes.head? = some Path.slash then [] else parent

/-- Follows names and links from a location; the links that may still be followed, and where it
ends. -/
def locate (fs : FileSystem) : (links : Nat) → Location → List RawText →
    Except FileFault (Nat × Location)
  | links, location, names =>
    match fs.reach location names with
    | .error fault => .error fault
    | .ok (.arrived location) => .ok (links, location)
    | .ok (.atLink parent target rest) =>
      match links with
      | 0 => .error .tooManyLinks
      | links + 1 =>
        if target = "" then .error .notFound
        else fs.locate links (origin parent target) (target.pieces ++ rest)

/-- Follows a path from the working directory. -/
def resolve (fs : FileSystem) (p : Path) : Except FileFault (Nat × Location) :=
  if p = "" then .error .notFound
  else fs.locate linkLimit (origin fs.workingDirectory p) p.pieces

/-- The entry that a path leads to. It is not a link. -/
def lookup (fs : FileSystem) (p : Path) : Except FileFault Entry :=
  match fs.resolve p with
  | .error fault => .error fault
  | .ok (_, location) =>
    match fs.entry? location with
    | some e => .ok e
    | none => .error .notFound

def pathExists (fs : FileSystem) (p : Path) : Bool :=
  (fs.lookup p).toBool

def isFile (fs : FileSystem) (p : Path) : Bool :=
  match fs.lookup p with
  | .ok (.file _) => true
  | _ => false

def readText (fs : FileSystem) (p : Path) : Except FileFault String :=
  match fs.lookup p with
  | .error fault => .error fault
  | .ok (.file id) =>
    if (fs.files id).readable then
      match String.fromUTF8? (fs.files id).content with
      | some text => .ok text
      | none => .error .notText
    else .error .denied
  | .ok (.dir true _) => .error .isDirectory
  | .ok _ => .error .denied

/-- Names without the empty ones that slashes at the end make. -/
def withoutSlashes (names : List RawText) : List RawText :=
  (names.reverse.dropWhile (·.bytes.isEmpty)).reverse

/-- Where a file that is written under names from a location ends up; a link at the end leads on,
at most `steps` times. Slashes at the end ask for a directory. -/
def writeTarget (fs : FileSystem) : (steps links : Nat) → Location → List RawText →
    Except FileFault Location
  | 0, _, _, _ => .error .tooManyLinks
  | steps + 1, links, location, names =>
    let real := withoutSlashes names
    match fs.locate links location real.dropLast with
    | .error fault => .error fault
    | .ok (links, parent) =>
      let name := real.getLast?.getD (.ofText ".")
      if !fs.isDirAt parent then .error .notDirectory
      else if real.length < names.length ∨ name = "." ∨ name = ".." then .error .isDirectory
      else if nameLimit < name.bytes.length then .error .nameTooLong
      else
        match fs.entry? (parent ++ [name]), links with
        | some (.dir ..), _ => .error .isDirectory
        | some (.link _), 0 => .error .tooManyLinks
        | some (.link target), links + 1 =>
          if target = "" then .error .notFound
          else fs.writeTarget steps links (origin parent target) target.pieces
        | _, _ => .ok (parent ++ [name])

/-- The file system with an entry at a location. -/
def put (fs : FileSystem) (location : Location) (e : Entry) : FileSystem :=
  { fs with root := fs.root.put location e }

/-- The file system with what a file of a number holds. -/
def setFile (fs : FileSystem) (id : Nat) (file : File) : FileSystem :=
  { fs with files := fun n => if n = id then file else fs.files n }

/-- The file system with another content of the file at a location, which stays the file it was, if
there is one. -/
def putContent (fs : FileSystem) (location : Location) (content : ByteArray) : FileSystem :=
  match fs.entry? location with
  | some (.file id) => fs.setFile id { fs.files id with content }
  | _ => (fs.setFile fs.root.freshId { content }).put location (.file fs.root.freshId)

def writeText (fs : FileSystem) (p : Path) (text : String) : Except FileFault FileSystem :=
  if p = "" then .error .notFound
  else
    (fs.writeTarget (linkLimit + 1) linkLimit (origin fs.workingDirectory p) p.pieces).map
      fun location => fs.putContent location text.toUTF8

/-- Puts an entry under a path, making the directories that lead to it. -/
def install (fs : FileSystem) (p : Path) (e : Entry) : FileSystem :=
  let names := p.pieces.filter fun name => (Path.component? name).isSome
  let start := origin fs.workingDirectory p
  match fs.locate linkLimit start names.dropLast with
  | .ok (_, parent) => fs.put (parent ++ names.drop (names.length - 1)) e
  | .error _ => fs.put (start ++ names) e

/-- Puts a new file under a path. -/
def installFile (fs : FileSystem) (p : Path) (file : File) : FileSystem :=
  (fs.setFile fs.root.freshId file).install p (.file fs.root.freshId)

end FileSystem

end FeatureFlags
