import FeatureFlags.Document.Parse
import FeatureFlags.Files.FileSystem

/-!
# Configurations in files

A path that leads nowhere and a file that cannot be read as text are refusals of their own; from
there on a file is treated like its text.
-/

namespace FeatureFlags.FileSystem

def loadText (fs : FileSystem) (p : Path) : Except ConfigError String :=
  if fs.pathExists p then (fs.readText p).mapError (.unreadable p)
  else .error (.fileNotFound p)

/-- The document in a file, not validated. -/
def loadDocument (fs : FileSystem) (p : Path) : Except ConfigError Json := do
  let text ← fs.loadText p
  (Json.ofText? text).mapError .notJson

def parseFile (fs : FileSystem) (p : Path) : Except ConfigError FlagMap := do
  let text ← fs.loadText p
  parse text

end FeatureFlags.FileSystem
