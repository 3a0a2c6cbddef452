import Docmark.Markup.Node
import Docmark.Member.Id
import Docmark.Member.TypeText

namespace Docmark

def dropConstructorMarkers : Text → Text
  | '.' :: '#' :: 'c' :: 't' :: 'o' :: 'r' :: rest => dropConstructorMarkers rest
  | c :: rest => c :: dropConstructorMarkers rest
  | [] => []

def parameterNames (e : Element) : List Text :=
  (e.childrenNamed "param").map fun param => (param.attr? "name").getD []

def segmentBeforeList (name : Text) : Text :=
  lastSegment (Text.beforeFirst '(' name) ++ name.dropWhile (· != '(')

/-- The name of a well-formed identifier with the given parameter names. Only in a `member` element
is the name cut to its last segment; methods then always show a parameter list. -/
def MemberId.display (assembly : Text) (inMember : Bool) (id : MemberId) (names : List Text) : Text :=
  let isMethod := inMember && id.kind == .method
  let bare := dropConstructorMarkers id.name
  let name := stripArity (if isMethod then lastSegment bare else bare)
  let listed :=
    if !names.isEmpty then name ++ "(" ++ parameterList assembly (id.params.getD []) names ++ ")"
    else if isMethod then name ++ "()"
    else name
  if inMember && (id.kind == .property || id.kind == .field) then segmentBeforeList listed
  else listed

def displayName (assembly : Text) (e : Element) : Text :=
  match e.attr? "name" with
  | none => []
  | some raw =>
    match MemberId.parse? raw with
    | none => raw
    | some id => id.display assembly (e.name = "member") (parameterNames e)

def simpleName (raw : Text) : Text :=
  match MemberId.parse? raw with
  | none => raw
  | some id =>
    stripArity (if id.isConstructor then lastSegment id.declaringType else id.memberName)

end Docmark
