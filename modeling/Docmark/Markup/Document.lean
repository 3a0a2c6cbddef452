import Docmark.Markup.Tree
import Docmark.Text.Blank

namespace Docmark

structure Document where
  root : Element

inductive ParseError
  | markup (fault : Markup.Fault)
  | malformed (cause : Markup.Malformed)
  deriving DecidableEq, Repr

def ParseError.message : ParseError → Text
  | markup fault => "XML parsing error: " ++ fault.message
  | malformed cause => "Malformed documentation file: " ++ cause.message

namespace Document

open Markup in
/-- The root that the events build. What is wrong with the tree so far comes before the fault that
ended the reading, and that before what is missing. -/
def ofEvents (read : Reading Event) : Except ParseError Document :=
  match Builder.start.run read.items, read.fault with
  | .error cause, _ => .error (.malformed cause)
  | .ok _, some fault => .error (.markup fault)
  | .ok builder, none =>
    match builder.finish with
    | .ok root => .ok ⟨root⟩
    | .error cause => .error (.malformed cause)

def parse (source : Text) : Except ParseError Document :=
  ofEvents (Markup.events ((Text.dropOpening? ['\ufeff'] source).getD source))

def members (d : Document) : List Element :=
  match d.root.child? "members" with
  | some members => members.childrenNamed "member"
  | none => []

def assemblyName? (d : Document) : Option Text := do
  let assembly ← d.root.child? "assembly"
  let name ← assembly.child? "name"
  return Text.trim name.textContent

end Document
end Docmark
