import Docmark.Member.DisplayName
import Docmark.Page.Context
import Docmark.Text.Case
import Docmark.Text.Slug

namespace Docmark

structure Link where
  display : Text
  target : Text
  deriving DecidableEq, Repr

def pageAnchor? (cref : Text) : Option Text :=
  Text.dropOpening? "!:#" cref

def nameAnchor (name : Text) : Text :=
  Text.lower (name.filter (· != '.'))

namespace Link

def targetOf (ctx : Context) (assembly anchor : Text) : Text :=
  if ctx.isSinglePage then "#" ++ anchor else "../" ++ assembly ++ "/#" ++ anchor

def methodText (assembly : Text) (id : MemberId) : Text :=
  let name := if id.isConstructor then lastSegment id.declaringType else id.memberName
  let types := (id.params.getD []).map (typeText assembly)
  stripArity name ++ "(" ++ Text.joinWith ", " types ++ ")"

/-- Documented methods show their parameter names too; other members show their bare names. -/
def displayOf (ctx : Context) (id : MemberId) : Text :=
  if id.kind = .method then
    match ctx.members.get? id.raw with
    | some member => displayName ctx.assembly member
    | none => methodText ctx.assembly id
  else stripArity id.memberName

def anchorOf (ctx : Context) (id : MemberId) : Text :=
  if id.kind = .method then Text.slug (displayOf ctx id)
  else
    let name := stripArity id.name
    nameAnchor (if ctx.isSinglePage then name else stripNamespace ctx.assembly name)

/-- Types whose names do not mention the documented assembly belong to the assembly that is called
like their namespace. -/
def assemblyOf (ctx : Context) (id : MemberId) : Text :=
  let isForeign :=
    id.kind == .type && !ctx.assembly.isEmpty && !Text.holds ctx.assembly id.name
  if isForeign && !id.declaringType.isEmpty then id.declaringType else ctx.assembly

def ofName (ctx : Context) (cref : Text) : Link :=
  let display := stripArity (lastSegment (dropOpening "!:" cref))
  ⟨display, targetOf ctx ctx.assembly (Text.slug display)⟩

def ofCref (ctx : Context) (cref : Text) : Link :=
  match MemberId.parse? cref with
  | none => ofName ctx cref
  | some id => ⟨displayOf ctx id, targetOf ctx (assemblyOf ctx id) (anchorOf ctx id)⟩

end Link

namespace TypeDescriptor

def keyword? (d : TypeDescriptor) : Option Text :=
  if d.namespaceName = "System" then keywordOf? d.simpleName else none

def brackets (d : TypeDescriptor) : Text :=
  if d.isArray then "[]" else []

def shortName (d : TypeDescriptor) : Text :=
  d.keyword?.getD d.simpleName

def target (ctx : Context) (d : TypeDescriptor) : Text :=
  if ctx.isSinglePage then "#" ++ Text.lower d.simpleName
  else
    let assembly := d.assembly.getD ctx.assembly
    "../" ++ assembly ++ "/#" ++ nameAnchor (stripNamespace assembly d.fullName)

def cell (ctx : Context) (d : TypeDescriptor) : Text :=
  match d.keyword? with
  | some word => word ++ d.brackets
  | none =>
    if d.isGeneric then
      d.simpleName ++ "‹" ++ Text.joinWith ", " (d.arguments.map shortName) ++ "›" ++ d.brackets
    else "[" ++ d.simpleName ++ "](" ++ d.target ctx ++ ")" ++ d.brackets

end TypeDescriptor
end Docmark
