import Docmark.Command.Execution
import Docmark.Command.Help

namespace Docmark.Command.Terminal

def located (p : Path) :=
  (IO.FS.DirEntry.mk (String.ofList p) "").root

def numbered (code : UInt32) (detail : String) : FileError :=
  -- Error numbers may be negated.
  match (min code (0 - code)).toNat with
  | 20 => .notDirectory
  | 21 => .isDirectory
  | 36 => .nameTooLong
  | _ => .other detail

def fileError : IO.Error → FileError
  | .noFileOrDirectory .. | .noSuchThing .. => .notFound
  | .alreadyExists .. => .alreadyExists
  | .inappropriateType _ code detail | .invalidArgument _ code detail => numbered code detail
  | e => .other e.toString

def attempt {α : Type} (action : IO α) : IO (Except FileError α) := do
  try return .ok (← action)
  catch e => return .error (fileError e)

def decode (bytes : ByteArray) : Except FileError Text :=
  match String.fromUTF8? bytes with
  | some s => .ok s
  | none => .error .notText

def readAll (bytes : IO ByteArray) : IO (Except FileError Text) := do
  return (← attempt bytes) >>= decode

partial def makeDirectories (p : Path) : IO (Except FileError Unit) := do
  if p.isEmpty then return .ok ()
  match ← attempt (IO.FS.createDir (located p)), p.parent? with
  | .error .notFound, some around =>
    match ← makeDirectories around with
    | .ok _ => settle (← attempt (IO.FS.createDir (located p)))
    | failed => return failed
  | made, _ => settle made
where
  settle : Except FileError Unit → IO (Except FileError Unit)
    | .ok _ => return .ok ()
    | .error e => do return if ← (located p).isDir then .ok () else .error e

partial def walk (p : Path) : IO (List (Path × Bool)) := do
  match ← attempt (located p).symlinkMetadata with
  | .error _ => return []
  | .ok data =>
    let isDirectory := data.type == .dir
    if !isDirectory then return [(p, false)]
    match ← attempt (located p).readDir with
    | .error _ => return [(p, true)]
    | .ok inside =>
      let found ← inside.toList.mapM fun entry => walk (p.join entry.fileName)
      return (p, true) :: found.flatten

instance : Host IO where
  isThere p := (located p).pathExists
  isDirectory p := (located p).isDir
  readText p := readAll (IO.FS.readBinFile (located p))
  writeText p t := attempt (IO.FS.writeBinFile (located p) (String.ofList t).toUTF8)
  createDirectories := makeDirectories
  copy source target := attempt do
    let source ← IO.FS.Handle.mk (located source) .read
    let target ← IO.FS.Handle.mk (located target) .write
    target.write (← source.readBinToEnd)
  below := walk
  stdin := readAll do (← IO.getStdin).readBinToEnd
  print t := attempt do
    let out ← IO.getStdout
    out.putStr (String.ofList t)
    out.flush
  warn w := do (← IO.getStderr).putStrLn (String.ofList ("WARN " ++ w.message))

end Docmark.Command.Terminal

open Docmark.Command in
def main (args : List String) : IO UInt32 := do
  let ending ← (run (args.map String.toList) : IO Ending)
  let say (t : Docmark.Text) : IO Unit := do (← IO.getStderr).putStrLn (String.ofList t)
  match ending with
  | .helped =>
    let printed ← (Host.print help : IO _)
    -- Only help that was not asked for has to be printed.
    if let (.error cause, []) := (printed, args) then
      say ("Error: " ++ cause.message)
      return 1
  | .misused cause => say ("error: " ++ cause.message)
  | .failed cause => say ("Error: " ++ cause.report)
  | .finished => pure ()
  return ending.status.toUInt32
