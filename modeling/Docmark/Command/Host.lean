import Docmark.Command.Warning

namespace Docmark.Command

class Host (m : Type → Type) where
  isThere : Path → m Bool
  isDirectory : Path → m Bool
  readText : Path → m (Except FileError Text)
  writeText : Path → Text → m (Except FileError Unit)
  createDirectories : Path → m (Except FileError Unit)
  copy : (source target : Path) → m (Except FileError Unit)
  below : Path → m (List (Path × Bool))
  stdin : m (Except FileError Text)
  print : Text → m (Except FileError Unit)
  warn : Warning → m Unit

end Docmark.Command
