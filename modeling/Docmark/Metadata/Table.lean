import Docmark.Member.Id
import Docmark.Metadata.TypeDescriptor

namespace Docmark

structure MemberEntry where
  kind : Kind
  name : Text
  isPublic : Bool
  type : Option TypeDescriptor

structure TypeEntry where
  /-- The qualified name; a nested type stands behind a plus sign. -/
  name : Text
  isPublic : Bool
  members : List MemberEntry

structure MetadataTable where
  assembly : Option Text
  /-- In source order; of two entries with one name the later counts. -/
  types : List TypeEntry

def baseName (name : Text) : Text :=
  Text.beforeFirst '(' name

namespace MetadataTable

def exactType? (table : MetadataTable) (name : Text) : Option TypeEntry :=
  table.types.reverse.find? (·.name = name)

def findType? (table : MetadataTable) (name : Text) : Option TypeEntry :=
  (table.exactType? name).or do
    let (outer, inner) ← Text.cutLast? '.' name
    table.exactType? (outer ++ "+" ++ inner)

/-- The entry of a member: the one with its signature, or else the first with its name. -/
def findMember? (table : MetadataTable) (className : Text) (kind : Kind) (member : Text) :
    Option MemberEntry := do
  let entry ← table.findType? className
  let candidates := entry.members.filter (·.kind = kind)
  (candidates.find? (·.name = member)).or
    (candidates.find? fun m => baseName m.name = baseName member)

def visibility? (table : MetadataTable) (id : MemberId) : Option Bool :=
  match id.kind with
  | .type => (table.findType? id.name).map (·.isPublic)
  | .scope => none
  | kind => (table.findMember? id.declaringType kind id.signature).map (·.isPublic)

def typeOf? (table : MetadataTable) (className : Text) (kind : Kind) (member : Text) :
    Option TypeDescriptor := do
  (← table.findMember? className kind member).type

end MetadataTable

structure Resolver where
  isPublic : MemberId → Bool
  typeOf? : (className : Text) → Kind → (member : Text) → Option TypeDescriptor

namespace Resolver

def unknown : Resolver where
  isPublic _ := true
  typeOf? _ _ _ := none

def ofTable (table : MetadataTable) : Resolver where
  isPublic id := (table.visibility? id).getD true
  typeOf? := table.typeOf?

end Resolver
end Docmark
