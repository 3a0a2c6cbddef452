import Docmark.Command.Conversion

namespace Docmark.Command

structure Search where
  root : Path
  directory : Text
  output : Path
  readme : Bool
  deriving DecidableEq, Repr

namespace Search

def nameOf (path : Path) : Text :=
  path.fileName?.getD path

def isBuildDirectory (s : Search) (found : Path × Bool) : Bool :=
  found.2 && nameOf found.1 = s.directory

def isDocumentation (found : Path × Bool) : Bool :=
  !found.2 && found.1.extension? = some "xml".toList

def outputFor (s : Search) (path : Path) : Path :=
  s.output.join
    (if s.readme then "README.md" else ((path.withExtension "md").fileName?).getD [])

def isIgnored (settings : Settings) (path : Path) : Bool :=
  settings.ignores (path.fileName?.getD [])

variable {m : Type → Type} [Monad m] [Host m]

def filesBelow (path : Path) : m (List Path) := do
  return ((← Host.below path).filter isDocumentation).map (·.1)

def files (s : Search) : m (List Path) := do
  let directories := (← Host.below s.root).filter s.isBuildDirectory
  return Path.ascending (← directories.mapM fun found => filesBelow found.1).flatten

def run (s : Search) (job : Job) : ExceptT Failure m Unit := do
  if !(← (Host.isDirectory s.root : m Bool)) then throw (.noSearchDirectory s.root)
  match ← (Host.createDirectories s.output : m _) with
  | .error cause => throw (.directoryNotCreated s.output cause)
  | .ok _ =>
    ((← (s.files : m _)).filter (!isIgnored job.settings ·)).forM fun path =>
      job.convert (.file path) (.file (s.outputFor path))

end Search
end Docmark.Command
