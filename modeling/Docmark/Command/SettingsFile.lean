import Docmark.Command.Host
import Docmark.Settings

namespace Docmark.Settings

open Command

variable {m : Type → Type} [Monad m] [Host m]

def load (path : Path) : m (Except LoadError Settings) := do
  match ← Host.readText path with
  | .error cause => return .error (.file cause)
  | .ok source => return (ofJson source).mapError .json

def save (s : Settings) (path : Path) : m (Except FileError Unit) :=
  Host.writeText path s.toJson

def loadOrWarn (path : Path) : m Settings := do
  match ← load path with
  | .ok s => return s
  | .error cause =>
    Host.warn (.settingsNotLoaded path cause)
    return empty

/-- The settings in a file, which is made if there is none. Whatever goes wrong, the run goes on
without settings, and a file that is there stays as it is. -/
def loadOrCreate (path : Path) : m Settings := do
  if ← Host.isThere path then loadOrWarn path
  else
    match ← empty.save path with
    | .ok _ => loadOrWarn path
    | .error cause =>
      Host.warn (.settingsNotCreated path cause)
      return empty

end Docmark.Settings
