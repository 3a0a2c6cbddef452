import Docmark.Command.Arguments
import Docmark.Command.Search
import Docmark.Command.SettingsFile

namespace Docmark.Command

inductive Task
  | single (source : Source) (sink : Sink)
  | search (s : Search)
  deriving DecidableEq, Repr

namespace Arguments

def source (a : Arguments) : Except Failure Source :=
  if a.stdin then .ok .stdin
  else
    match a.input with
    | some path => .ok (.file path)
    | none => .error .noInput

def sink (a : Arguments) : Except Failure Sink :=
  if a.stdout then .ok .stdout
  else
    match a.output with
    | some path => .ok (.file path)
    | none => .error .noOutput

def task (a : Arguments) : Except Failure Task := do
  match a.search, a.output with
  | some _, none => throw .noSearchOutput
  | some root, some output => return .search ⟨root, a.directory, output, a.readme⟩
  | none, _ => return .single (← a.source) (← a.sink)

variable {m : Type → Type} [Monad m] [Host m]

def execute (a : Arguments) : ExceptT Failure m Unit := do
  let job : Job := ⟨a.options, ← (Settings.loadOrCreate a.settingsFile : m Settings), a.secondary⟩
  match ← ExceptT.mk (pure a.task) with
  | .single source sink => job.convert source sink
  | .search s => s.run job

end Arguments

inductive Ending
  | helped
  | misused (cause : Misuse)
  | failed (cause : Failure)
  | finished
  deriving DecidableEq, Repr

def Ending.status : Ending → Nat
  | helped | finished => 0
  | failed _ => 1
  | misused _ => 2

def run {m : Type → Type} [Monad m] [Host m] (arguments : List Text) : m Ending := do
  match Arguments.parse arguments with
  | .error .help => return .helped
  | .error (.misuse cause) => return .misused cause
  | .ok a =>
    match ← a.execute.run with
    | .ok _ => return .finished
    | .error cause => return .failed cause

end Docmark.Command
