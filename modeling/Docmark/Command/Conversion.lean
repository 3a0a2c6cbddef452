import Docmark.Command.Failure
import Docmark.Command.Host
import Docmark.Metadata.TableReader
import Docmark.Page.Preparation
import Docmark.Page.Walk
import Docmark.Settings

namespace Docmark.Command

inductive Source
  | file (path : Path)
  | stdin
  deriving DecidableEq, Repr

inductive Sink
  | file (path : Path)
  | stdout
  deriving DecidableEq, Repr

structure Job where
  options : Options
  settings : Settings
  secondary : Option Path
  deriving DecidableEq, Repr

def footer : Text :=
  "\n\n---\n\nGenerated by xmldocmd"

def sidecar (path : Path) : Path :=
  path.withExtension "types.json"

variable {m : Type → Type} [Monad m] [Host m]

def Source.read : Source → ExceptT Failure m Text
  | file path => do
    match ← (Host.readText path : m _) with
    | .ok source => return source
    | .error cause => throw (.unreadable path cause)
  | stdin => do
    match ← (Host.stdin : m _) with
    | .ok source => return source
    | .error cause => throw (.unreadableStdin cause)

def loadTable (path : Path) : m (Except LoadError MetadataTable) := do
  match ← Host.readText path with
  | .error cause => return .error (.file cause)
  | .ok source => return (MetadataTable.ofJson source).mapError .json

def Source.resolver : Source → m Resolver
  | stdin => return .unknown
  | file path => do
    if ← Host.isThere (sidecar path) then
      match ← loadTable (sidecar path) with
      | .ok table => return .ofTable table
      | .error cause =>
        Host.warn (.metadataNotLoaded (sidecar path) cause)
        return .unknown
    else return .unknown

def copyTo (directory output : Path) : m Unit := do
  match output.fileName? with
  | none => return ()
  | some name =>
    let docs := directory.join "docs"
    let target := docs.join name
    match ← Host.createDirectories docs with
    | .error cause => Host.warn (.notCopied target cause)
    | .ok _ =>
      match ← Host.copy output target with
      | .error cause => Host.warn (.notCopied target cause)
      | .ok _ => return ()

def Sink.write (secondary : Option Path) (page : Text) : Sink → ExceptT Failure m Unit
  | stdout => do
    match ← (Host.print page : m _) with
    | .error cause => throw (.unprintable cause)
    | .ok _ => return ()
  | file path => do
    match ← (Host.writeText path page : m _) with
    | .error cause => throw (.unwritable path cause)
    | .ok _ =>
      match secondary with
      | some directory => (copyTo directory path : m Unit)
      | none => return ()

namespace Job

def page (job : Job) (resolver : Resolver) (d : Document) : Outcome Text :=
  (d.prepare job.settings.namespacesToRemove).render job.options resolver

def convert (job : Job) (source : Source) (sink : Sink) : ExceptT Failure m Unit := do
  match Document.parse (← source.read) with
  | .error cause => throw (.notDocumentation cause)
  | .ok d =>
    let outcome := job.page (← (source.resolver : m Resolver)) d
    outcome.warnings.forM fun u => (Host.warn (.unknownTag u) : m Unit)
    match outcome.result with
    | .error u => throw (.unknownTag u)
    | .ok text => sink.write job.secondary (text ++ footer)

end Job
end Docmark.Command
