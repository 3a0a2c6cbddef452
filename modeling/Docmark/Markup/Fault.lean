import Docmark.Text.Basic

namespace Docmark.Markup

inductive Fault
  | invalidBang
  | unclosedInstruction
  | unclosedDeclaration
  | unclosedComment
  | unclosedDoctype
  | unclosedCData
  | unclosedTag
  | unclosedSingleQuote
  | unclosedDoubleQuote
  | missingDoctypeName
  | unmatchedEnd (found : Text)
  | mismatchedEnd (expected found : Text)
  | unclosedReference
  deriving DecidableEq, Repr

namespace Fault

def label : Fault → Text
  | missingDoctypeName | unmatchedEnd _ | mismatchedEnd _ _ | unclosedReference =>
    "ill-formed document"
  | _ => "syntax error"

def detail : Fault → Text
  | invalidBang => "unknown or missed symbol in markup"
  | unclosedInstruction =>
    "processing instruction not closed: `?>` not found before end of input"
  | unclosedDeclaration => "XML declaration not closed: `?>` not found before end of input"
  | unclosedComment => "comment not closed: `-->` not found before end of input"
  | unclosedDoctype => "DOCTYPE not closed: `>` not found before end of input"
  | unclosedCData => "CDATA not closed: `]]>` not found before end of input"
  | unclosedTag => "tag not closed: `>` not found before end of input"
  | unclosedSingleQuote => "attribute value not closed: `'` not found before end of input"
  | unclosedDoubleQuote => "attribute value not closed: `\"` not found before end of input"
  | missingDoctypeName =>
    "`<!DOCTYPE>` declaration does not contain a name of a document type"
  | unmatchedEnd found => "close tag `</" ++ found ++ ">` does not match any open tag"
  | mismatchedEnd expected found =>
    "expected `</" ++ expected ++ ">`, but `</" ++ found ++ ">` was found"
  | unclosedReference =>
    "entity or character reference not closed: `;` not found before end of input"

def message (f : Fault) : Text :=
  f.label ++ ": " ++ f.detail

end Fault
end Docmark.Markup
