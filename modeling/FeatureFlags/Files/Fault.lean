/-!
# Why a path cannot be used

The ways in which reading or writing a file can fail, with the words of the operating system.
-/

namespace FeatureFlags

inductive FileFault
  | notFound
  | denied
  | notDirectory
  | isDirectory
  | nameTooLong
  | tooManyLinks
  | notText
  deriving DecidableEq

def FileFault.message : FileFault → String
  | .notFound => "No such file or directory (os error 2)"
  | .denied => "Permission denied (os error 13)"
  | .notDirectory => "Not a directory (os error 20)"
  | .isDirectory => "Is a directory (os error 21)"
  | .nameTooLong => "File name too long (os error 36)"
  | .tooManyLinks => "Too many levels of symbolic links (os error 40)"
  | .notText => "stream did not contain valid UTF-8"

end FeatureFlags
