import Docmark.Markup.Position

namespace Docmark

structure StartTag where
  name : Text
  attributes : List (Text × Text)
  position : Position
  deriving DecidableEq, Repr

inductive Node
  | text (content : Text)
  | element (tag : StartTag) (children : List Node)

structure Element where
  tag : StartTag
  children : List Node

namespace Node

def element? : Node → Option Element
  | .text _ => none
  | .element tag children => some ⟨tag, children⟩

def isNamed (name : Text) : Node → Bool
  | .text _ => false
  | .element tag _ => tag.name = name

mutual

def textContent : Node → Text
  | .text content => content
  | .element _ children => textContents children

def textContents : List Node → Text
  | [] => []
  | node :: nodes => textContent node ++ textContents nodes

end

theorem textContents_append (ns ms : List Node) :
    textContents (ns ++ ms) = textContents ns ++ textContents ms := by
  induction ns with
  | nil => simp [textContents]
  | cons n ns ih => simp [textContents, ih]

end Node

namespace Element

def toNode (e : Element) : Node :=
  .element e.tag e.children

def name (e : Element) : Text :=
  e.tag.name

def attr? (e : Element) (key : Text) : Option Text :=
  e.tag.attributes.lookup key

def elements (e : Element) : List Element :=
  e.children.filterMap Node.element?

def child? (e : Element) (name : Text) : Option Element :=
  e.elements.find? (·.name = name)

def childrenNamed (e : Element) (name : Text) : List Element :=
  e.elements.filter (·.name = name)

def textContent (e : Element) : Text :=
  Node.textContents e.children

def withAttr (e : Element) (key value : Text) : Element :=
  { e with tag := { e.tag with attributes := e.tag.attributes ++ [(key, value)] } }

def withChild (e : Element) (child : Node) : Element :=
  { e with children := e.children ++ [child] }

@[simp] theorem element?_toNode (e : Element) : e.toNode.element? = some e := rfl

end Element
end Docmark
