import Docmark.Text.Basic

/-!
The kinds of blocks and spans on a page, the tags that name them, and the rule of each: a template,
and what goes into its slots. `first` marks the form that opens a run and has the run's heading.
-/

namespace Docmark

inductive Key
  | doc
  | assembly
  | name
  | nothing
  | type
  | field (first : Bool)
  | property (first : Bool)
  | method (first : Bool)
  | constructor (first : Bool)
  | event (first : Bool)
  | summary
  | fieldSummary
  | value
  | nameRemarks
  | remarks
  | exampleBlock
  | para
  | code
  | seePage
  | seeAnchor
  | seeLangword
  | seeAlso (first : Bool)
  | typeParam (first : Bool)
  | param (first : Bool)
  | paramRef
  | typeParamRef
  | exception
  | returns
  | c
  | list
  | item
  | description
  | b
  | br
  | a
  | h1
  | h2
  | h3
  | h4
  deriving DecidableEq, Repr

inductive Content
  | document
  | nameAndBody
  | nothing
  | body
  | memberRow
  | memberName
  | codeBlock
  | crossReference
  | anchor
  | keyword
  | parameter
  | returnType
  | list
  | description
  | hyperlink
  deriving DecidableEq, Repr

structure Rule where
  template : Text
  content : Content

namespace Key

def tags : List (String × Key) := [
  ("doc", doc), ("assembly", assembly), ("name", name), ("none", nothing), ("type", type),
  ("field", field false), ("firstfield", field true), ("property", property false),
  ("firstproperty", property true), ("method", method false), ("firstmethod", method true),
  ("constructor", constructor false), ("firstconstructor", constructor true),
  ("event", event false), ("firstevent", event true), ("summary", summary),
  ("fieldsummary", fieldSummary), ("value", value), ("nameremarks", nameRemarks),
  ("remarks", remarks), ("example", exampleBlock), ("para", para), ("code", code),
  ("seePage", seePage), ("seeAnchor", seeAnchor), ("seeLangword", seeLangword),
  ("seealso", seeAlso false), ("firstseealso", seeAlso true), ("typeparam", typeParam false),
  ("firsttypeparam", typeParam true), ("param", param false), ("firstparam", param true),
  ("paramref", paramRef), ("typeparamref", typeParamRef), ("exception", exception),
  ("returns", returns), ("c", c), ("list", list), ("item", item), ("description", description),
  ("b", b), ("br", br), ("a", a), ("h1", h1), ("h2", h2), ("h3", h3), ("h4", h4)]

def ofTag? (tag : Text) : Option Key :=
  (tags.find? fun entry => entry.1.toList = tag).map (·.2)

def isMember : Key → Bool
  | type | field _ | property _ | method _ | constructor _ | event _ | nothing => true
  | _ => false

def rule : Key → Rule
  | doc => ⟨"# {0}\n{1}\n\n{2}\n\n", .document⟩
  | assembly => ⟨"{1}\n", .nameAndBody⟩
  | name | nothing => ⟨"", .nothing⟩
  | type => ⟨"\n---\n## {0}\n\n{1}\n", .nameAndBody⟩
  | field true =>
    ⟨"\n#### Fields:\n|Name | Type | Description |\n|-----|------|------|\n|{0}|{2}|{1}|\n",
      .memberRow⟩
  | field false | property false => ⟨"|{0}|{2}|{1}|\n", .memberRow⟩
  | property true =>
    ⟨"\n#### Properties:\n|Name | Type | Description |\n|-----|------|------|\n|{0}|{2}|{1}|\n",
      .memberRow⟩
  | method true => ⟨"\n#### Methods:\n\n##### {0}\n{1}\n", .nameAndBody⟩
  | method false | constructor false => ⟨"\n##### {0}\n{1}\n", .nameAndBody⟩
  | constructor true => ⟨"\n#### Constructors:\n\n##### {0}\n{1}\n", .nameAndBody⟩
  | event true => ⟨"\n#### Events:\n##### {0}\n{1}\n", .nameAndBody⟩
  | event false => ⟨"##### {0}\n{1}\n", .nameAndBody⟩
  | summary => ⟨"{0}\n\n", .body⟩
  | fieldSummary => ⟨"{0}", .body⟩
  | value => ⟨"**Value**: {0}\n\n", .body⟩
  | nameRemarks => ⟨"{0}", .memberName⟩
  | remarks => ⟨"\n{0}\n", .body⟩
  | exampleBlock => ⟨"\n##### Example\n{0}\n\n", .body⟩
  | para => ⟨"  \n {0}  ", .body⟩
  | code => ⟨"\n```{0}\n{1}\n```\n", .codeBlock⟩
  | seePage => ⟨"[{0}]({1})", .crossReference⟩
  | seeAnchor => ⟨"[{0}]({1})", .anchor⟩
  | seeLangword => ⟨" `{0}` ", .keyword⟩
  | seeAlso true => ⟨"\n\nSee also:\n\n- [{0}]({1})\n\n", .crossReference⟩
  | seeAlso false => ⟨"- [{0}]({1})\n\n", .crossReference⟩
  | typeParam true =>
    ⟨"\n#### Generics:\n\n|Name | Description |\n|-----|------|\n|{0}: |{1}|\n", .nameAndBody⟩
  | typeParam false => ⟨"|{0}: |{1}|\n", .nameAndBody⟩
  | param true => ⟨"\n|Name | Description |\n|-----|------|\n|{0}|{1}|\n", .parameter⟩
  | param false => ⟨"|{0}|{1}|\n", .parameter⟩
  | paramRef => ⟨"`{0}`", .parameter⟩
  | typeParamRef => ⟨"`{0}`", .nameAndBody⟩
  | exception => ⟨"**Throws:** [{0}]({1})\n\n", .crossReference⟩
  | returns => ⟨"\n**Returns:** {0}\n\n", .returnType⟩
  | c => ⟨" `{0}` ", .body⟩
  | list => ⟨"{0}{1}", .list⟩
  | item => ⟨"\n- {0}{1}  ", .nameAndBody⟩
  | description => ⟨"{0} {1}", .description⟩
  | b => ⟨"**{0}**", .body⟩
  | br => ⟨"{0}  \n\n", .body⟩
  | a => ⟨"[{0}]({1})", .hyperlink⟩
  | h1 => ⟨"# {0}\n\n", .body⟩
  | h2 => ⟨"## {0}\n\n", .body⟩
  | h3 => ⟨"### {0}\n\n", .body⟩
  | h4 => ⟨"#### {0}\n\n", .body⟩

end Key
end Docmark
