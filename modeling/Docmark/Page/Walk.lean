import Docmark.Page.Content

/-!
The walk over a tree: each element is given its key from its name and what came before it, and the
rule of the key is applied.
-/

namespace Docmark

structure Run where
  kind : Kind
  isConstructor : Bool
  deriving DecidableEq, Repr

/-- A malformed identifier counts by its opening. -/
def Run.of? (raw : Text) : Option Run :=
  match MemberId.parse? raw with
  | some id => some ⟨id.kind, id.isConstructor⟩
  | none => (Kind.ofOpening? raw).map (⟨·, Text.holds constructorMarker raw⟩)

structure Siblings where
  parent : Option Element
  previous : Option Text
  /-- The last member that was not hidden. -/
  last : Option Run

namespace Siblings

def start : Siblings :=
  ⟨none, none, none⟩

def under (parent : Element) : Siblings :=
  ⟨some parent, none, none⟩

def past (s : Siblings) (ctx : Context) (node : Node) : Siblings :=
  match node.element? with
  | none => s
  | some e =>
    let run := if ctx.isHidden e then none else (e.attr? "name").bind Run.of?
    { s with previous := some e.name, last := run.or s.last }

end Siblings

namespace Key

/-- The key of a member. An identifier with an unknown letter shows nothing, one without any opening
is taken for a type. -/
def ofMember (last : Option Run) (name : Option Text) : Key :=
  match name with
  | none => nothing
  | some raw =>
    match Run.of? raw with
    | none => if raw.tail.head? = some ':' then nothing else type
    | some run =>
      let first := fun same : Run → Bool => !last.any same
      match run.kind with
      | .type => type
      | .method =>
        if run.isConstructor then constructor (first (·.isConstructor))
        else method (first fun r => r.kind == .method && !r.isConstructor)
      | .property => property (first (·.kind == .property))
      | .field => field (first (·.kind == .field))
      | .event => event (first (·.kind == .event))
      | .scope => nothing

def ownerKind? (s : Siblings) (ctx : Context) : Option Kind := do
  let owner ← s.parent.or ctx.member
  Kind.ofOpening? (← owner.attr? "name")

def ofSee (e : Element) : Key :=
  match e.attr? "cref" with
  | some cref => if (Text.dropOpening? "!:#" cref).isSome then seeAnchor else seePage
  | none => if (e.attr? "langword").isSome then seeLangword else seePage

def of? (s : Siblings) (ctx : Context) (e : Element) : Option Key :=
  if e.name = "member" then some (ofMember s.last (e.attr? "name"))
  else if e.name = "see" then some (ofSee e)
  else
    match ofTag? e.name with
    | some (param false) => some (param (s.previous != some e.name))
    | some (typeParam false) => some (typeParam (s.previous != some e.name))
    | some (seeAlso false) => some (seeAlso (s.previous != some e.name))
    | some summary => some (if ownerKind? s ctx = some .field then fieldSummary else summary)
    | some remarks => some (if e.textContent.isEmpty then nameRemarks else remarks)
    | key => key

end Key

namespace Context

def under (ctx : Context) (key : Key) (e : Element) : Context :=
  if key.isMember then { ctx with member := some e } else ctx

def unknown (ctx : Context) (tag : StartTag) : Outcome Text :=
  let u : UnknownTag := ⟨tag.name, tag.position⟩
  match ctx.options.policy with
  | .error => .fail u
  | .warn => do
    .warn u
    return []
  | .accept => return []

end Context

namespace Node

mutual

def render (s : Siblings) (ctx : Context) : Node → Outcome Text
  | .text content => return Text.collapse content
  | .element tag children =>
    let e : Element := ⟨tag, children⟩
    if tag.name = "member" ∧ ctx.isHidden e then return []
    else
      match Key.of? s ctx e with
      | none => ctx.unknown tag
      | some key =>
        let parts : Parts := {
          body := fun ctx => renderAll (Siblings.under e) ctx children
          assembly := fun ctx => renderAssembly ctx children
          members := fun ctx => renderFirstMembers ctx children }
        key.rule.apply e parts (ctx.under key e)

def renderAll (s : Siblings) (ctx : Context) : List Node → Outcome Text
  | [] => return []
  | node :: nodes => do
    let here ← render s ctx node
    return here ++ (← renderAll (s.past ctx node) ctx nodes)

def renderAssembly (ctx : Context) : List Node → Outcome Text
  | [] => return []
  | node :: nodes =>
    if node.isNamed "assembly" then render Siblings.start ctx node else renderAssembly ctx nodes

def renderFirstMembers (ctx : Context) : List Node → Outcome Text
  | [] => return []
  | node :: nodes =>
    if node.isNamed "members" then renderMembers ctx node else renderFirstMembers ctx nodes

def renderMembers (ctx : Context) : Node → Outcome Text
  | .text _ => return []
  | .element tag children => renderMemberList (Siblings.under ⟨tag, children⟩) ctx children

def renderMemberList (s : Siblings) (ctx : Context) : List Node → Outcome Text
  | [] => return []
  | node :: nodes =>
    if node.isNamed "member" then do
      let here ← render s ctx node
      return here ++ (← renderMemberList (s.past ctx node) ctx nodes)
    else renderMemberList s ctx nodes

end

end Node

namespace Element

def parts (e : Element) : Parts where
  body ctx := Node.renderAll (Siblings.under e) ctx e.children
  assembly ctx := Node.renderAssembly ctx e.children
  members ctx := Node.renderFirstMembers ctx e.children

def render (ctx : Context) (e : Element) : Outcome Text :=
  e.toNode.render Siblings.start ctx

end Element

namespace Document

def render (options : Options) (resolver : Resolver) (d : Document) : Outcome Text := do
  let ctx : Context := {
    assembly := []
    options := options
    resolver := resolver
    members := d.members
    member := none }
  return Text.squeezeBreaks (← d.root.render ctx)

end Document
end Docmark
