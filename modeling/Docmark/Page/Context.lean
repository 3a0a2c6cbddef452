import Docmark.Markup.Document
import Docmark.Metadata.Table
import Docmark.Page.Outcome

namespace Docmark

inductive Policy
  | error
  | warn
  | accept
  deriving DecidableEq, Repr

namespace Policy

def ofName (name : Text) : Except Text Policy :=
  let lowered := Text.lowerAscii name
  if lowered = "error" then .ok .error
  else if lowered = "warn" then .ok .warn
  else if lowered = "accept" then .ok .accept
  else .error lowered

def unknownName (lowered : Text) : Text :=
  "unknown unexpected-tag action '" ++ lowered ++ "'"

end Policy

inductive Layout
  | perAssembly
  | singlePage
  deriving DecidableEq, Repr

structure Options where
  policy : Policy
  layout : Layout
  deriving DecidableEq, Repr

abbrev MemberIndex := List Element

def MemberIndex.get? (members : MemberIndex) (identifier : Text) : Option Element :=
  members.reverse.find? (·.attr? "name" = some identifier)

structure Context where
  assembly : Text
  options : Options
  resolver : Resolver
  members : MemberIndex
  member : Option Element

namespace Context

def memberName? (ctx : Context) : Option Text := do
  (← ctx.member).attr? "name"

def isSinglePage (ctx : Context) : Bool :=
  ctx.options.layout == .singlePage

def isVisible (ctx : Context) (id : MemberId) : Bool :=
  id.isConstructor || ctx.resolver.isPublic id

def isHidden (ctx : Context) (e : Element) : Bool :=
  match (e.attr? "name").bind MemberId.parse? with
  | some id => !ctx.isVisible id
  | none => false

end Context
end Docmark
