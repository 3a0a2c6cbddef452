import Docmark.Markup.Document
import Docmark.Member.Kind

namespace Docmark

def assemblyDocMarker : Text := "AssemblyDoc"

namespace Node

def isMemberWith (p : Text → Bool) (node : Node) : Bool :=
  match node.element? with
  | some e => e.name = "member" && (e.attr? "name").any p
  | none => false

def children : Node → List Node
  | .text _ => []
  | .element _ children => children

def updateFirst (name : Text) (f : List Node → List Node) : List Node → List Node
  | [] => []
  | .element tag children :: nodes =>
    if tag.name = name then .element tag (f children) :: nodes
    else .element tag children :: updateFirst name f nodes
  | node :: nodes => node :: updateFirst name f nodes

def withReturns (node : Node) : Node :=
  match node with
  | .text content => .text content
  | .element tag children =>
    if node.isMemberWith (Kind.ofOpening? · = some .method) && !children.any (isNamed "returns") then
      .element tag (children ++ [.element ⟨"returns", [], tag.position⟩ []])
    else node

end Node

namespace Document

def updateFirst (name : Text) (f : List Node → List Node) (d : Document) : Document :=
  ⟨{ d.root with children := Node.updateFirst name f d.root.children }⟩

def memberNodes (d : Document) : List Node :=
  match d.root.child? "members" with
  | some members => members.children
  | none => []

def isAssemblyDoc : Node → Bool :=
  Node.isMemberWith (Text.holds assemblyDocMarker)

def mergeAssemblyDoc (d : Document) : Document :=
  let moved := (d.memberNodes.filter isAssemblyDoc).flatMap Node.children
  (d.updateFirst "members" (·.filter (!isAssemblyDoc ·))).updateFirst "assembly" (· ++ moved)

def removeNamespaces (namespaces : List Text) (d : Document) : Document :=
  d.updateFirst "members"
    (·.filter (!Node.isMemberWith (fun name => namespaces.any (Text.holds · name)) ·))

def addMissingReturns (d : Document) : Document :=
  d.updateFirst "members" (·.map Node.withReturns)

def prepare (namespaces : List Text) (d : Document) : Document :=
  ((d.mergeAssemblyDoc).removeNamespaces namespaces).addMissingReturns

end Document
end Docmark
