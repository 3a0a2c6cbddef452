import Docmark.Command.Host
import Docmark.Files.FileSystem

namespace Docmark.Command

structure Environment where
  files : FileSystem
  input : Contents
  output : Text
  warnings : List Warning
  /-- Why nothing can be printed, if so. -/
  outputFault : Option FileError
  deriving DecidableEq, Repr

namespace Environment

def ofFiles (files : FileSystem) (input : Contents) (outputFault : Option FileError := none) :
    Environment :=
  ⟨files, input, [], [], outputFault⟩

def update (operation : FileSystem → Except FileError FileSystem) :
    StateM Environment (Except FileError Unit) :=
  fun env =>
    match operation env.files with
    | .ok files => (.ok (), { env with files := files })
    | .error cause => (.error cause, env)

instance : Host (StateM Environment) where
  isThere p := fun env => ((env.files.find p).isSome, env)
  isDirectory p := fun env => (env.files.isDirectory p, env)
  readText p := fun env => (env.files.readText p, env)
  writeText p t := update (·.write p (.text t))
  createDirectories p := fun env =>
    ((env.files.createDirectories p).1, { env with files := (env.files.createDirectories p).2 })
  copy source target := update (·.copy source target)
  below p := fun env => (env.files.below p, env)
  stdin := fun env => (env.input.read, env)
  print t := fun env =>
    match env.outputFault with
    | none => (.ok (), { env with output := env.output ++ t })
    | some cause => (.error cause, env)
  warn w := fun env => ((), { env with warnings := env.warnings ++ [w] })

end Environment
end Docmark.Command
