import Docmark.Markup.Document
import Docmark.Proofs.TagText
import Docmark.Proofs.Tree

namespace Docmark

namespace Markup

open Reference (Spells Names Numeral)

inductive AsideText : Text → Prop
  | comment {content : Text} : ¬ ['-', '-'] <:+: content →
    AsideText ('<' :: '!' :: '-' :: '-' :: (content ++ ['-', '-', '>']))
  | instruction {content : Text} : ¬ ['?', '>'] <:+: '?' :: content →
    AsideText ('<' :: '?' :: (content ++ ['?', '>']))

inductive PieceText : Text → Text → Prop
  | data {content written : Text} : content ≠ [] → Spells Token.isText written content →
    PieceText content written
  | cdata {content : Text} : content ≠ [] → ¬ [']', ']', '>'] <:+: content →
    PieceText content
      ('<' :: '!' :: '[' :: 'C' :: 'D' :: 'A' :: 'T' :: 'A' :: '[' :: (content ++ [']', ']', '>']))

/-- How nodes in a row are written. Comments and instructions may stand anywhere, also inside a text
node. -/
inductive NodesText : List Node → Text → Prop
  | nil : NodesText [] []
  | aside {aside rest : Text} {nodes : List Node} :
    AsideText aside → NodesText nodes rest → NodesText nodes (aside ++ rest)
  | text {content piece rest : Text} {nodes : List Node} :
    PieceText content piece → NodesText nodes rest → NodesText (.text content :: nodes) (piece ++ rest)
  | more {content piece following rest : Text} {nodes : List Node} :
    PieceText content piece → NodesText (.text following :: nodes) rest →
      NodesText (.text (content ++ following) :: nodes) (piece ++ rest)
  | empty {tag : StartTag} {content rest : Text} {nodes : List Node} :
    TagText tag content → NodesText nodes rest →
      NodesText (.element tag [] :: nodes) ('<' :: (content ++ '/' :: '>' :: rest))
  | element {tag : StartTag} {content inner space rest : Text} {children nodes : List Node} :
    TagText tag content → NodesText children inner → space.all isSpace → NodesText nodes rest →
      NodesText (.element tag children :: nodes)
        ('<' :: (content ++ '>' :: (inner ++ '<' :: ('/' :: (tag.name ++ space) ++ '>' :: rest))))

inductive OutsideText : Text → Prop
  | nil : OutsideText []
  | space {c : Char} {rest : Text} : isSpace c → OutsideText rest → OutsideText (c :: rest)
  | aside {aside rest : Text} : AsideText aside → OutsideText rest → OutsideText (aside ++ rest)

end Markup

open Markup

/-- Trees of elements with plain names and distinct keys, in which texts are not empty and stand
apart. -/
inductive Node.Regular : Node → Prop
  | text {content : Text} : content ≠ [] → Regular (.text content)
  | element {tag : StartTag} {children : List Node} :
    PlainTag tag → Apart children → (∀ n ∈ children, Regular n) → Regular (.element tag children)

inductive DocumentText (d : Document) : Text → Prop
  | intro {mark front body behind : Text} :
    mark = [] ∨ mark = ['\ufeff'] → OutsideText front → NodesText [d.root.toNode] body →
      OutsideText behind → DocumentText d (mark ++ (front ++ (body ++ behind)))

namespace Markup

open Reference (Spells Names)

theorem exists_spells (plain : Char → Bool) (hp : ∀ c, plain c = true ∨ ∃ name, Names name c)
    (content : Text) : ∃ written, Spells plain written content := by
  induction content with
  | nil => exact ⟨[], .nil⟩
  | cons c cs ih =>
    obtain ⟨written, hw⟩ := ih
    rcases hp c with hc | ⟨name, hn⟩
    · exact ⟨_, .char hc hw⟩
    · exact ⟨_, .reference hn hw⟩

theorem names_of_not_isValueChar (c : Char) : isValueChar c = true ∨ ∃ name, Names name c := by
  by_cases h : isValueChar c = true
  · exact Or.inl h
  · simp only [isValueChar, Bool.not_eq_true', Bool.not_eq_false, Bool.or_eq_true, beq_iff_eq] at h
    rcases h with (rfl | rfl) | rfl
    · exact Or.inr ⟨_, .less⟩
    · exact Or.inr ⟨_, .ampersand⟩
    · exact Or.inr ⟨_, .quote⟩

theorem names_of_not_isText (c : Char) : Token.isText c = true ∨ ∃ name, Names name c := by
  by_cases h : Token.isText c = true
  · exact Or.inl h
  · simp only [Token.isText, Bool.not_eq_true', Bool.not_eq_false, Bool.or_eq_true, beq_iff_eq] at h
    rcases h with rfl | rfl
    · exact Or.inr ⟨_, .less⟩
    · exact Or.inr ⟨_, .ampersand⟩

theorem exists_attributesText (attributes : List (Text × Text)) :
    ∃ t, AttributesText attributes t := by
  induction attributes with
  | nil => exact ⟨[], .nil rfl⟩
  | cons a attributes ih =>
    obtain ⟨rest, hr⟩ := ih
    obtain ⟨written, hw⟩ := exists_spells isValueChar names_of_not_isValueChar a.2
    have ha : AttributesText ((a.1, a.2) :: attributes)
        ([' '] ++ (a.1 ++ ([] ++ '=' :: ([] ++ '"' :: (written ++ '"' :: rest))))) :=
      .cons (by decide) (by decide) rfl rfl hw hr
    exact ⟨_, ha⟩

theorem exists_nodesText {nodes : List Node}
    (h : ∀ n ∈ nodes, ∀ rest more, NodesText more rest → ∃ t, NodesText (n :: more) t) :
    ∃ t, NodesText nodes t := by
  induction nodes with
  | nil => exact ⟨[], .nil⟩
  | cons n nodes ih =>
    obtain ⟨rest, hr⟩ := ih fun m hm => h m (List.mem_cons_of_mem _ hm)
    exact h n List.mem_cons_self rest nodes hr

theorem exists_nodesText_cons {n : Node} (h : n.Regular) {more : List Node} {rest : Text}
    (hr : NodesText more rest) : ∃ t, NodesText (n :: more) t := by
  induction n generalizing more rest with
  | text content =>
    cases h with
    | text hne =>
      obtain ⟨written, hw⟩ := exists_spells Token.isText names_of_not_isText content
      exact ⟨_, .text (.data hne hw) hr⟩
  | element tag children ih =>
    cases h with
    | element hp _ hs =>
      obtain ⟨t, ht⟩ := exists_attributesText tag.attributes
      obtain ⟨inner, hi⟩ := exists_nodesText fun n hn _ _ hrest => ih n hn (hs n hn) hrest
      exact ⟨_, .element ⟨t, ht, rfl⟩ hi List.all_nil hr⟩

end Markup

theorem exists_documentText {d : Document} (h : d.root.toNode.Regular) :
    ∃ source, DocumentText d source := by
  obtain ⟨body, hb⟩ := exists_nodesText_cons h .nil
  exact ⟨_, .intro (Or.inl rfl) .nil hb .nil⟩

end Docmark
