import Docmark.Files.FileError
import Docmark.Files.Path
import Docmark.Json.Reader
import Docmark.Page.Outcome

namespace Docmark.Command

inductive LoadError
  | file (cause : FileError)
  | json (cause : Json.Fault)
  deriving DecidableEq, Repr

def LoadError.message : LoadError → Text
  | file cause => cause.message
  | json .ended => "unexpected end of JSON"
  | json .notJson => "not JSON"
  | json .shape => "JSON of another shape"

inductive Warning
  | settingsNotCreated (path : Path) (cause : FileError)
  | settingsNotLoaded (path : Path) (cause : LoadError)
  | metadataNotLoaded (path : Path) (cause : LoadError)
  | notCopied (target : Path) (cause : FileError)
  | unknownTag (cause : UnknownTag)
  deriving DecidableEq, Repr

def Warning.message : Warning → Text
  | settingsNotCreated path cause =>
    "failed to create settings file " ++ path ++ ": " ++ cause.message
  | settingsNotLoaded path cause =>
    "failed to load settings file " ++ path ++ ": " ++ cause.message
  | metadataNotLoaded path cause =>
    "failed to load metadata " ++ path ++ ", continuing without: " ++ cause.message
  | notCopied target cause => "failed to copy to " ++ target ++ ": " ++ cause.message
  | unknownTag cause => cause.message

end Docmark.Command
