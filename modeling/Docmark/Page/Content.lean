import Docmark.Page.Key
import Docmark.Page.Link
import Docmark.Text.CodeBlock
import Docmark.Text.LineBreaks
import Docmark.Text.Template

namespace Docmark

/-- What the children of an element render to, once the context is known: all of them, the first
`assembly` among them, and the members of the first `members`. -/
structure Parts where
  body : Context → Outcome Text
  assembly : Context → Outcome Text
  members : Context → Outcome Text

namespace Content

def inlineText (e : Element) : Text :=
  Text.trim (Text.collapse e.textContent)

def bold (caption suffix : Text) : Text :=
  "**" ++ caption ++ suffix ++ "**"

def captioned (opening caption : Text) : Text :=
  if Text.allBlank caption then caption else opening ++ bold caption ":"

def documentName (e : Element) : Text :=
  match (e.child? "assembly").bind (·.child? "name") with
  | some name => Text.trim name.textContent
  | none => []

def declaredType? (ctx : Context) (id : MemberId) : Option TypeDescriptor :=
  ctx.resolver.typeOf? id.declaringType id.kind id.signature

def rowType (ctx : Context) (raw : Text) : Text :=
  match MemberId.parse? raw with
  | none => Text.beforeFirst ':' raw
  | some id =>
    match declaredType? ctx id with
    | some type => type.cell ctx
    | none => [id.kind.letter]

/-- The description in a member's row. That of a property has its loose end and spare blank lines
taken off; that of a field has none. -/
def rowBody (raw body : Text) : Text :=
  match MemberId.parse? raw with
  | none => body
  | some id =>
    if id.kind = .field then body else Text.squeezeBreaks (Text.trimEnd isBlank body)

def returnText (ctx : Context) (e : Element) : Text :=
  match ctx.memberName?.bind MemberId.parse? with
  | none => inlineText e
  | some id =>
    if id.isConstructor then stripArity (lastSegment id.declaringType)
    else
      match declaredType? ctx id with
      | some type => type.shortName ++ type.brackets
      | none => inlineText e

def linkValues (ctx : Context) (e : Element) : List Text :=
  match e.attr? "cref" with
  | some cref => [(Link.ofCref ctx cref).display, (Link.ofCref ctx cref).target]
  | none => [inlineText e]

def anchorValues (e : Element) : List Text :=
  let target := ((e.attr? "cref").bind pageAnchor?).getD []
  let text := inlineText e
  [if text.isEmpty then target else text, "#" ++ target]

def parameterBody (name body : Text) : Text :=
  if Text.allBlank body then Text.capitalize name else body

def values (e : Element) (parts : Parts) (ctx : Context) : Content → Outcome (List Text)
  | document => do
    let ctx := { ctx with assembly := documentName e }
    let assembly ← parts.assembly ctx
    let members ← parts.members ctx
    return [documentName e, assembly, members]
  | nameAndBody => do return [displayName ctx.assembly e, ← parts.body ctx]
  | nothing => return []
  | body => do return [← parts.body ctx]
  | memberRow => do
    let raw := (e.attr? "name").getD []
    return [displayName ctx.assembly e, rowBody raw (← parts.body ctx), rowType ctx raw]
  | memberName => return [(ctx.memberName?.map simpleName).getD []]
  | codeBlock => return [(e.attr? "lang").getD "cs", Text.codeBlock e.textContent]
  | crossReference => return linkValues ctx e
  | anchor => return anchorValues e
  | keyword => return [(e.attr? "langword").getD (inlineText e)]
  | parameter => do
    let name := stripNamespace ctx.assembly ((e.attr? "name").getD [])
    return [name, parameterBody name (← parts.body ctx)]
  | returnType => return [returnText ctx e]
  | list => do return [captioned "\n\n" (displayName ctx.assembly e), ← parts.body ctx]
  | description => do return [captioned [] (displayName ctx.assembly e), ← parts.body ctx]
  | hyperlink => return inlineText e :: (e.attr? "href").toList

end Content

namespace Rule

def apply (rule : Rule) (e : Element) (parts : Parts) (ctx : Context) : Outcome Text := do
  return fill rule.template (← rule.content.values e parts ctx)

end Rule
end Docmark
