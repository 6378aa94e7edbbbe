import FeatureFlags.CommandLine.Run

/-!
# The program

Takes a picture of the files that the arguments name, runs the command line on it, and carries
out what it did: the texts go to the output streams, and a file that was written is written. Names
and arguments come as texts here, and every name in the picture has a file of its own.
-/

namespace FeatureFlags.Main

/-- The arguments that may name a path: those that are no options, and values behind an equals
sign. -/
def pathsIn (args : List RawText) : List Path :=
  args.filterMap fun arg =>
    match Command.shape arg with
    | .value text => some text
    | .long _ value? => value?
    | _ => none

/-- The names that pieces lead to from a location, if no link is in the way. -/
def lexical (start : Location) (pieces : List RawText) : Location :=
  pieces.foldl (fun location (piece : RawText) =>
    if piece = "" ∨ piece = "." then location
    else if piece = ".." then location.dropLast
    else location ++ [piece]) start

/-- What an action reads; nothing if it is not permitted. -/
def ifPermitted {α : Type} (action : IO α) : IO (Option α) := do
  try
    return some (← action)
  catch
    | .permissionDenied .. => return none
    | e => throw e

/-- Reading the disk. The files that were read have their places as their numbers. -/
abbrev Reading : Type → Type := StateT (Array File) IO

/-- The entry under a path on disk. Links are followed; one that leads nowhere stays one. -/
partial def picture (path : Path) : Reading Entry := do
  let here := (← IO.currentDir) / path.shown
  unless ← here.pathExists do
    throw (.userError path.shown)
  if ← here.isDir then
    let found? ← ifPermitted here.readDir
    let mut entries := []
    for e in found?.getD #[] do
      let entry ← try picture (path.join e.fileName) catch _ => pure (.link "")
      entries := ((e.fileName : RawText), entry) :: entries
    return .dir found?.isSome entries
  else
    let content? ← ifPermitted (IO.FS.readBinFile here)
    let id := (← get).size
    modify (·.push { readable := content?.isSome, content := content?.getD .empty })
    return .file id

/-- Adds to a picture what a path leads to, and the directories on the way. -/
def add (fs : FileSystem) (path : Path) : Reading FileSystem := do
  let mut fs := fs
  let pieces := path.pieces
  let start := FileSystem.origin fs.workingDirectory path
  for n in List.range pieces.length do
    let front : Path := ⟨[Path.slash].intercalate ((pieces.take n).map (·.bytes))⟩
    let here := (← IO.currentDir) / front.shown
    let location := lexical start (pieces.take n)
    if (← here.isDir) && (fs.entry? location).isNone then
      fs := fs.put location (.dir true [])
  try
    return fs.put (lexical start pieces) (← picture path)
  catch _ =>
    return fs

/-- A picture of what paths lead to. -/
def pictureOf (paths : List Path) : IO FileSystem := do
  let home := (Path.pieces (← IO.currentDir).toString).filter (!·.bytes.isEmpty)
  let empty : FileSystem := { workingDirectory := home }
  let (fs, files) ← (paths.foldlM add (empty.put home (.dir true []))).run #[]
  return { fs with files := fun id => files.getD id {} }

/-- Runs the command line on a picture of the disk. -/
def run (args : List RawText) : IO UInt32 := do
  let fs ← pictureOf (pathsIn args)
  let mut outcome := CommandLine.run fs args
  for path in pathsIn args do
    if let .ok (.file id) := outcome.files.lookup path then
      let content := (outcome.files.files id).content
      let isNew := match fs.lookup path with
        | .ok (.file before) => (fs.files before).content != content
        | _ => true
      if isNew && (← ifPermitted (IO.FS.writeBinFile path.shown content)).isNone then
        outcome := CommandLine.cannotWrite fs path .denied
  (← IO.getStdout).putStr outcome.stdout
  (← IO.getStderr).putStr outcome.stderr
  return outcome.exitCode.toUInt32

end FeatureFlags.Main

def main (args : List String) : IO UInt32 :=
  FeatureFlags.Main.run (args.map FeatureFlags.RawText.ofText)
