import Docmark.Markup.Event

namespace Docmark.Markup

inductive Malformed
  | strayEnd
  | secondRoot (tag : StartTag)
  | unclosed (tag : StartTag)
  | noRoot
  deriving DecidableEq, Repr

def Malformed.message : Malformed → Text
  | strayEnd => "closing tag without an open element"
  | secondRoot tag => "second root element <" ++ tag.name ++ "> at " ++ tag.position.toText
  | unclosed tag => "element <" ++ tag.name ++ "> at " ++ tag.position.toText ++ " is never closed"
  | noRoot => "document has no root element"

def appendText (content : Text) : List Node → List Node
  | [] => [.text content]
  | [.text before] => [.text (before ++ content)]
  | node :: nodes => node :: appendText content nodes

structure Builder where
  pending : List Element
  root : Option Element

namespace Builder

def start : Builder :=
  ⟨[], none⟩

def attach (b : Builder) (e : Element) : Except Malformed Builder :=
  match b.pending, b.root with
  | parent :: others, _ =>
    .ok { b with pending := { parent with children := parent.children ++ [e.toNode] } :: others }
  | [], none => .ok { b with root := some e }
  | [], some _ => .error (.secondRoot e.tag)

def addText (b : Builder) (content : Text) : Builder :=
  match b.pending with
  | [] => b
  | e :: others => { b with pending := { e with children := appendText content e.children } :: others }

def step (b : Builder) : Event → Except Malformed Builder
  | .opening tag => .ok { b with pending := ⟨tag, []⟩ :: b.pending }
  | .empty tag => b.attach ⟨tag, []⟩
  | .closing =>
    match b.pending with
    | [] => .error .strayEnd
    | e :: others => { b with pending := others }.attach e
  | .text content => .ok (b.addText content)

def run (b : Builder) : List Event → Except Malformed Builder
  | [] => .ok b
  | event :: events => do (← b.step event).run events

def finish (b : Builder) : Except Malformed Element :=
  match b.pending, b.root with
  | e :: _, _ => .error (.unclosed e.tag)
  | [], some root => .ok root
  | [], none => .error .noRoot

end Builder
end Docmark.Markup
