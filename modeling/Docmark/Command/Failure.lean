import Docmark.Files.FileError
import Docmark.Files.Path
import Docmark.Markup.Document
import Docmark.Page.Outcome

namespace Docmark.Command

inductive Failure
  | noInput
  | noOutput
  | noSearchOutput
  | noSearchDirectory (path : Path)
  | directoryNotCreated (path : Path) (cause : FileError)
  | unreadable (path : Path) (cause : FileError)
  | unreadableStdin (cause : FileError)
  | notDocumentation (cause : ParseError)
  | unknownTag (cause : UnknownTag)
  | unwritable (path : Path) (cause : FileError)
  | unprintable (cause : FileError)
  deriving DecidableEq, Repr

namespace Failure

def summary : Failure → Text
  | noInput => "no input: pass --inputfile, --cin or --search"
  | noOutput => "no output: pass --outputfile or --cout"
  | noSearchOutput => "--search needs an output directory (-o)"
  | noSearchDirectory path => "search directory \"" ++ path ++ "\" does not exist"
  | directoryNotCreated path _ => "failed to create output directory " ++ path
  | unreadable path _ => "failed to read " ++ path
  | unreadableStdin cause => cause.message
  | notDocumentation _ => "failed to parse documentation XML"
  | unknownTag cause => cause.message
  | unwritable path _ => "failed to write " ++ path
  | unprintable cause => cause.message

def causes : Failure → List Text
  | directoryNotCreated _ cause | unreadable _ cause | unwritable _ cause => [cause.message]
  | notDocumentation (.malformed cause) => [(ParseError.malformed cause).message]
  | notDocumentation (.markup fault) =>
    [(ParseError.markup fault).message, fault.message, fault.detail]
  | _ => []

def labelled (label cause : Text) : Text :=
  label ++ Text.joinWith ("\n" ++ List.replicate label.length ' ') (Text.splitOn '\n' cause)

def numberLabel (n : Nat) : Text :=
  let digits := (toString n).toList
  List.replicate (5 - digits.length) ' ' ++ digits ++ ": "

def listed : List Text → List Text
  | [] => []
  | [cause] => [labelled "    " cause]
  | causes => causes.mapIdx fun n cause => labelled (numberLabel n) cause

def report (f : Failure) : Text :=
  match listed f.causes with
  | [] => f.summary
  | causes => f.summary ++ "\n\nCaused by:\n" ++ Text.joinWith "\n" causes

end Failure
end Docmark.Command
