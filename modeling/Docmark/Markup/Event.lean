import Docmark.Markup.Node
import Docmark.Markup.Reference
import Docmark.Markup.Token

namespace Docmark.Markup

inductive Event
  | opening (tag : StartTag)
  | empty (tag : StartTag)
  | closing
  | text (content : Text)
  deriving DecidableEq, Repr

def localName (name : Text) : Text :=
  Text.afterLast ':' name

def tagName (content : Text) : Text :=
  content.takeWhile (!isSpace ·)

def endName (content : Text) : Text :=
  if content.all isSpace then content else Text.trimEnd isSpace content

def startTag (position : Position) (content : Text) : StartTag where
  name := localName (tagName content)
  attributes := (attributes (dropWord content)).map fun (key, value) =>
    (localName key, Reference.decode value)
  position := position

def referenceText (name : Text) : Text :=
  match Reference.resolve? name with
  | some c => [c]
  | none => "&" ++ name ++ ";"

def eventsFrom (place : Nat → Position) (fault : Option Fault) :
    List Text → List (Nat × Token) → Reading Event
  | _, [] => ⟨[], fault⟩
  | names, (offset, token) :: more =>
    match token, names with
    | .opening content, names =>
      .cons (.opening (startTag (place offset) content))
        (eventsFrom place fault (tagName content :: names) more)
    | .empty content, names =>
      .cons (.empty (startTag (place offset) content)) (eventsFrom place fault names more)
    | .closing content, [] => ⟨[], some (.unmatchedEnd (endName content))⟩
    | .closing content, name :: names =>
      if endName content = name then .cons .closing (eventsFrom place fault names more)
      else ⟨[], some (.mismatchedEnd name (endName content))⟩
    | .text content, names => .cons (.text content) (eventsFrom place fault names more)
    | .cdata content, names => .cons (.text content) (eventsFrom place fault names more)
    | .reference name, names =>
      .cons (.text (referenceText name)) (eventsFrom place fault names more)
    | .aside _, names => eventsFrom place fault names more

def events (source : Text) : Reading Event :=
  let read := tokens source
  eventsFrom (Position.ofOffset source) read.fault [] read.items

end Docmark.Markup
