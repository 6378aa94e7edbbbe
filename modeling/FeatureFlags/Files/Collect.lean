import FeatureFlags.Files.FileSystem

/-!
# Finding configuration files

`FileSystem.configFiles` lists the JSON files that a path stands for: itself, if it is a file, or
everything below it. The search goes into every directory whatever its name, through links too; a
link costs one of the links a path may follow, so even a link to a directory above it is followed
only so often. An unreadable directory holds nothing to be found. What is not a directory counts
by its name alone. The list is sorted.
-/

namespace FeatureFlags

/-- The paths found at a name that is a link in a directory, by its location, the name and the
path to it. -/
abbrev LinkVisitor : Type := Location → RawText → Path → List Path

/-- A path, if it names a JSON file. -/
def Path.ifJson (p : Path) : List Path :=
  if p.isJson then [p] else []

namespace Entry

mutual

/-- The JSON files at an entry of a directory, whose location is given. -/
def jsonFiles (visit : LinkVisitor) : Entry → (parent : Location) → (name : RawText) → Path →
    List Path
  | .file _, _, _, p => p.ifJson
  | .link _, parent, name, p => visit parent name p
  | .dir readable es, parent, name, p =>
    if readable then jsonFilesIn visit es (parent ++ [name]) p else []

/-- The JSON files below a directory. -/
def jsonFilesIn (visit : LinkVisitor) : List (RawText × Entry) → Location → Path → List Path
  | [], _, _ => []
  | (name, e) :: more, location, p =>
    jsonFiles visit e location name (p.join name) ++ jsonFilesIn visit more location p

end

end Entry

namespace FileSystem

/-- The JSON files at a link, when `links` more may be followed; `steps` bounds the links that lead
on from there. -/
def visitLink (fs : FileSystem) : (steps links : Nat) → LinkVisitor
  | 0, _ => fun _ _ p => p.ifJson
  | steps + 1, links => fun parent name p =>
    match fs.locate links parent [name] with
    | .error _ => p.ifJson
    | .ok (links, location) =>
      match fs.entry? location with
      | some (.dir readable es) =>
        if readable then Entry.jsonFilesIn (fs.visitLink steps links) es location p else []
      | _ => p.ifJson

/-- The JSON files that a path stands for, in order. -/
def configFiles (fs : FileSystem) (p : Path) : List Path :=
  match fs.resolve p with
  | .error _ => []
  | .ok (links, location) =>
    match fs.entry? location with
    | some (.dir readable es) =>
      if readable then
        (Entry.jsonFilesIn (fs.visitLink (linkLimit + 1) links) es location p).mergeSort Path.le
      else []
    | some _ => p.ifJson
    | none => []

end FileSystem

end FeatureFlags
