import Mathlib
import Docmark.Proofs.Builder
import Docmark.Proofs.Cuts
import Docmark.Proofs.Reports

namespace Docmark

namespace Text

theorem eq_nil_of_byteSize {t : Text} (h : byteSize t = 0) : t = [] := by
  cases t with
  | nil => rfl
  | cons c cs =>
    have := c.utf8Size_pos
    rw [byteSize] at h
    omega

end Text

namespace Position

/-- The place right behind a text: a line for each line feed in it, a column for each byte after the
last of them. -/
def behind (front : Text) : Position :=
  ⟨front.count '\n' + 1, Text.byteSize (Text.afterLast '\n' front) + 1⟩

theorem after_byteSize (p : Position) (front rest : Text) :
    after (Text.byteSize front) p (front ++ rest) =
      ⟨p.line + front.count '\n',
        if '\n' ∈ front then Text.byteSize (Text.afterLast '\n' front) + 1
        else p.column + Text.byteSize front⟩ := by
  induction front generalizing p with
  | nil =>
    cases rest with
    | nil => rfl
    | cons c cs => simp [after, Text.byteSize, c.utf8Size_pos]
  | cons c front ih =>
    have hpass : ¬ c.utf8Size + Text.byteSize front < c.utf8Size := by omega
    have hrest : c.utf8Size + Text.byteSize front - c.utf8Size = Text.byteSize front := by omega
    rw [Text.byteSize, List.cons_append, after, if_neg hpass, hrest, Text.afterLast_cons]
    by_cases hc : c = '\n'
    · subst hc
      rw [if_pos rfl, ih]
      by_cases hf : '\n' ∈ front
      · simp [hf]
        omega
      · simp [hf]
        omega
    · rw [if_neg hc, ih]
      by_cases hf : '\n' ∈ front
      · simp [hf, hc]
      · simp [hf, hc, Ne.symm hc]
        omega

theorem ofOffset_byteSize (front rest : Text) :
    ofOffset (front ++ rest) (Text.byteSize front) = behind front := by
  rw [ofOffset, after_byteSize, behind]
  by_cases hf : '\n' ∈ front
  · rw [if_pos hf, Nat.add_comm]
  · rw [if_neg hf, Nat.add_comm, Nat.add_comm 1, Text.afterLast, Text.cutLast?_eq_none.2 hf]

theorem eq_of_behind_append {front more : Text} (h : behind (front ++ more) = behind front) :
    more = [] := by
  rw [behind, behind, Position.mk.injEq, List.count_append] at h
  have hmore : '\n' ∉ more := List.count_eq_zero.1 (by omega)
  rw [Text.afterLast_append front hmore, Text.byteSize_append] at h
  exact Text.eq_nil_of_byteSize (by omega)

def LeadsTo (place : Position) (source front : Text) : Prop :=
  front <+: source ∧ behind front = place

theorem LeadsTo.unique {source s t : Text} {place : Position} (hs : place.LeadsTo source s)
    (ht : place.LeadsTo source t) : s = t := by
  have h : behind s = behind t := hs.2.trans ht.2.symm
  rcases List.prefix_or_prefix_of_prefix hs.1 ht.1 with ⟨more, rfl⟩ | ⟨more, rfl⟩
  · rw [eq_of_behind_append h.symm, List.append_nil]
  · rw [eq_of_behind_append h, List.append_nil]

end Position

namespace Markup

def Token.tagContent? : Token → Option Text
  | opening content | empty content => some content
  | _ => none

theorem filterMap_opened_events (place : Nat → Position) (ts : List (Nat × Token)) :
    (ts.flatMap (Token.events place)).filterMap Event.opened? =
      ts.filterMap fun t => t.2.tagContent?.map (startTag (place t.1)) := by
  induction ts with
  | nil => rfl
  | cons t ts ih =>
    rw [List.flatMap_cons, List.filterMap_append, ih]
    obtain ⟨offset, token⟩ := t
    cases token <;> rfl

theorem tagContent?_of_readBang {t rest : Text} {token : Token}
    (h : Token.readBang t = .ok (token, rest)) : token.tagContent? = none := by
  unfold Token.readBang Token.readDoctype at h
  repeat' split at h
  all_goals cases h
  all_goals rfl

theorem tagContent?_of_readInstruction {t rest : Text} {token : Token}
    (h : Token.readInstruction t = .ok (token, rest)) : token.tagContent? = none := by
  unfold Token.readInstruction at h
  repeat' split at h
  all_goals cases h
  all_goals rfl

theorem head_of_readMarkup {t rest content : Text} {token : Token}
    (h : Token.readMarkup t = .ok (token, rest)) (hc : token.tagContent? = some content) :
    ∀ c ∈ t.head?, c ∉ ['/', '!', '?'] := by
  unfold Token.readMarkup at h
  split at h
  · rw [tagContent?_of_readBang h] at hc
    cases hc
  · rw [tagContent?_of_readInstruction h] at hc
    cases hc
  · obtain ⟨_, rfl, -⟩ := Token.eq_of_map_cutTag h
    cases hc
  · next hb hi hs =>
    rintro c hhead hm
    cases t with
    | nil => cases hhead
    | cons d ds =>
      cases hhead
      rcases List.mem_cons.1 hm with rfl | hm
      · exact hs ds rfl
      · rcases List.mem_cons.1 hm with rfl | hm
        · exact hb ds rfl
        · exact hi ds (by rw [List.mem_singleton.1 hm])

def NameEnds (t : Text) : Prop :=
  ∃ c more, t = c :: more ∧ (isSpace c ∨ c = '>' ∨ c = '/' ∧ more.head? = some '>')

structure OpensTag (qualified t : Text) : Prop where
  named : ∃ behind, t = qualified ++ behind ∧ NameEnds behind
  spaceless : qualified.all (!isSpace ·)
  no_aside : ∀ c ∈ t.head?, c ∉ ['/', '!', '?']
  read : ∃ token rest content, Token.readMarkup t = .ok (token, rest) ∧
    token.tagContent? = some content ∧ tagName content = qualified

structure TagStands (source front name : Text) (place : Position) : Prop where
  place_eq : place = Position.behind front
  written : ∃ qualified more, source = front ++ '<' :: more ∧ OpensTag qualified more ∧
    localName qualified = name

theorem TagStands.leads {source front name : Text} {place : Position}
    (h : TagStands source front name place) : place.LeadsTo source front := by
  obtain ⟨qualified, more, hs, -⟩ := h.written
  exact ⟨hs ▸ List.prefix_append _ _, h.place_eq.symm⟩

theorem nameEnds_dropWord (content : Text) {ending : Text} (h : NameEnds ending) :
    NameEnds (dropWord content ++ ending) := by
  cases hd : dropWord content with
  | nil => exact h
  | cons c more =>
    have hc : (!isSpace c) = false := by
      have hhead := List.head?_dropWhile_not (!isSpace ·) content
      rw [dropWord] at hd
      rw [hd] at hhead
      simpa using hhead
    refine ⟨c, more ++ ending, rfl, Or.inl ?_⟩
    simpa using hc

theorem opensTag_of_readMarkup {t rest content : Text} {token : Token}
    (h : Token.readMarkup t = .ok (token, rest)) (hc : token.tagContent? = some content) :
    OpensTag (tagName content) t := by
  have hcontent : content = tagName content ++ dropWord content :=
    List.takeWhile_append_dropWhile.symm
  refine ⟨?_, List.all_takeWhile, head_of_readMarkup h hc, token, rest, content, h, hc, rfl⟩
  obtain ⟨more, hs, rfl⟩ := Token.eq_of_readMarkup h
  have hmore : ∃ ending, more ++ rest = content ++ ending ∧ NameEnds ending := by
    cases token with
    | opening found =>
      cases hc
      cases hs
      exact ⟨'>' :: rest, by simp, '>', rest, rfl, Or.inr (Or.inl rfl)⟩
    | empty found =>
      cases hc
      cases hs
      exact ⟨'/' :: '>' :: rest, by simp, '/', '>' :: rest, rfl, Or.inr (Or.inr ⟨rfl, rfl⟩)⟩
    | closing | text | cdata | reference | aside => cases hc
  obtain ⟨ending, hm, he⟩ := hmore
  refine ⟨dropWord content ++ ending, ?_, nameEnds_dropWord content he⟩
  rw [hm, ← List.append_assoc, ← hcontent]

theorem opensTag_of_read {c : Char} {t rest content : Text} {token : Token}
    (h : Token.read c t = .ok (token, rest)) (hc : token.tagContent? = some content) :
    c = '<' ∧ OpensTag (tagName content) t := by
  unfold Token.read at h
  split at h
  · next hopen => exact ⟨hopen, opensTag_of_readMarkup h hc⟩
  · split at h
    · unfold Token.readReference at h
      simp only at h
      split at h
      · cases h
        cases hc
      · cases h
    · cases h
      cases hc

theorem mem_tokensFrom {offset : Nat} {t : Text} {x : Nat × Token}
    (h : x ∈ (tokensFrom offset t).items) :
    ∃ front c more rest, t = front ++ c :: more ∧ Token.read c more = .ok (x.2, rest) ∧
      x.1 = offset + Text.byteSize front := by
  induction offset, t using tokensFrom.induct with
  | case1 offset =>
    rw [tokensFrom] at h
    cases h
  | case2 offset c t fault hr =>
    rw [tokensFrom, hr] at h
    cases h
  | case3 offset c t token rest hr ih =>
    rw [tokensFrom, hr] at h
    rcases List.mem_cons.1 h with rfl | h
    · exact ⟨[], c, t, rest, rfl, hr, rfl⟩
    · obtain ⟨front, d, more, behind, rfl, hd, hx⟩ := ih h
      obtain ⟨source, hs, rfl⟩ := Token.eq_of_read hr
      refine ⟨token.source ++ front, d, more, behind, ?_, hd, ?_⟩
      · rw [hs, List.cons_append, List.cons_append, List.append_assoc]
      · rw [hx, Text.byteSize_append, Nat.add_assoc]

theorem byteSize_source_pos {c : Char} {t rest : Text} {token : Token}
    (h : Token.read c t = .ok (token, rest)) : 0 < Text.byteSize token.source := by
  obtain ⟨more, hs, -⟩ := Token.eq_of_read h
  have := c.utf8Size_pos
  rw [hs, Text.byteSize]
  omega

theorem pairwise_tokensFrom (offset : Nat) (t : Text) :
    (tokensFrom offset t).items.Pairwise fun x y => x.1 < y.1 := by
  induction offset, t using tokensFrom.induct with
  | case1 offset =>
    rw [tokensFrom]
    exact .nil
  | case2 offset c t fault hr =>
    rw [tokensFrom, hr]
    exact .nil
  | case3 offset c t token rest hr ih =>
    rw [tokensFrom, hr]
    refine List.Pairwise.cons ?_ ih
    intro x hx
    have hpos := byteSize_source_pos hr
    obtain ⟨front, -, -, -, -, -, hoffset⟩ := mem_tokensFrom hx
    simp only [hoffset]
    omega

theorem place_of_mem_tokensFrom {body content : Text} {x : Nat × Token}
    (h : x ∈ (tokensFrom 0 body).items) (hc : x.2.tagContent? = some content) :
    ∃ front, Text.byteSize front = x.1 ∧
      TagStands body front (localName (tagName content)) (Position.ofOffset body x.1) := by
  obtain ⟨front, c, more, rest, hbody, hr, hx⟩ := mem_tokensFrom h
  rw [Nat.zero_add] at hx
  obtain ⟨rfl, hopens⟩ := opensTag_of_read hr hc
  refine ⟨front, hx.symm, ?_, tagName content, more, hbody, hopens, rfl⟩
  rw [hx, hbody, Position.ofOffset_byteSize]

theorem tokens_eq_tokensFrom {t : Text} (h : t.head? ≠ some '\ufeff') :
    tokens t = tokensFrom 0 t := by
  unfold tokens
  split
  · exact absurd rfl h
  · rfl

end Markup

namespace Document

open Markup

def unmarked (source : Text) : Text :=
  (Text.dropOpening? ['\ufeff'] source).getD source

theorem tags_of_parse {source : Text} {d : Document} (h : parse source = .ok d)
    (hmark : (unmarked source).head? ≠ some '\ufeff') :
    d.root.toNode.tags = (tokensFrom 0 (unmarked source)).items.filterMap fun x =>
      x.2.tagContent?.map (startTag (Position.ofOffset (unmarked source) x.1)) := by
  have hevents : ofEvents (events (unmarked source)) = .ok d := h
  rw [events, tokens_eq_tokensFrom hmark] at hevents
  rw [tags_of_ofEvents hevents, filterMap_opened_events]

/-- The place of an element leads to one byte of the source and no other. There stands the start tag
of the element, elements further on in the tree stand further on in the source, and so what ends the
rendering of a page is a tag that can be looked up. -/
theorem places_lead_to_tags {source : Text} {d : Document} (h : parse source = .ok d)
    (hmark : (unmarked source).head? ≠ some '\ufeff') :
    let body := unmarked source
    (∀ tag ∈ d.root.toNode.tags, ∃ front, TagStands body front tag.name tag.position ∧
      ∀ s, tag.position.LeadsTo body s ↔ s = front) ∧
    (d.root.toNode.tags.Pairwise fun a b => ∀ s t, a.position.LeadsTo body s →
      b.position.LeadsTo body t → Text.byteSize s < Text.byteSize t) ∧
    ∀ options resolver u, (d.render options resolver).result = .error u →
      ∃ front, TagStands body front u.tag u.position := by
  intro body
  have htags := tags_of_parse h hmark
  have hstands : ∀ tag ∈ d.root.toNode.tags, ∃ front, TagStands body front tag.name tag.position := by
    intro tag ht
    rw [htags] at ht
    obtain ⟨x, hx, hmap⟩ := List.mem_filterMap.1 ht
    obtain ⟨content, hc, rfl⟩ := Option.map_eq_some_iff.1 hmap
    obtain ⟨front, -, hfront⟩ := place_of_mem_tokensFrom hx hc
    exact ⟨front, hfront⟩
  refine ⟨?_, ?_, ?_⟩
  · intro tag ht
    obtain ⟨front, hfront⟩ := hstands tag ht
    exact ⟨front, hfront, fun s => ⟨fun hs => hs.unique hfront.leads, fun hs => hs ▸ hfront.leads⟩⟩
  · rw [htags, List.pairwise_filterMap]
    refine (pairwise_tokensFrom 0 body).imp_of_mem ?_
    intro x y hx hy hxy a ha b hb s t hs ht
    obtain ⟨content, hc, rfl⟩ := Option.map_eq_some_iff.1 ha
    obtain ⟨other, ho, rfl⟩ := Option.map_eq_some_iff.1 hb
    obtain ⟨front, hsize, hfront⟩ := place_of_mem_tokensFrom hx hc
    obtain ⟨further, hfurther, hstand⟩ := place_of_mem_tokensFrom hy ho
    -- Places are compared through the offsets of their tokens, which grow.
    rw [hs.unique hfront.leads, hsize, ht.unique hstand.leads, hfurther]
    exact hxy
  · intro options resolver u hu
    obtain ⟨tag, ht, rfl⟩ := reports_render options resolver d u (Or.inr hu)
    exact hstands tag ht

def oddSource : Text :=
  "\ufeff<doc>\r\né<x:odd k='>'/>\n</doc>"

theorem places_lead_to_tags_odd :
    ∃ d, parse oddSource = .ok d ∧ (unmarked oddSource).head? ≠ some '\ufeff' ∧
      d.root.toNode.tags.map StartTag.position = [⟨1, 1⟩, ⟨2, 3⟩] ∧
        ∃ front, TagStands (unmarked oddSource) front "odd" ⟨2, 3⟩ := by
  let odd : StartTag := ⟨"odd", [("k", ">")], ⟨2, 3⟩⟩
  let root : Element :=
    ⟨⟨"doc", [], ⟨1, 1⟩⟩, [.text "\r\né", .element odd [], .text "\n"]⟩
  have hparse : parse oddSource = .ok ⟨root⟩ := by cbv
  have hmark : (unmarked oddSource).head? ≠ some '\ufeff' := by decide
  obtain ⟨hstands, -⟩ := places_lead_to_tags hparse hmark
  have hodd : odd ∈ root.toNode.tags := List.mem_cons_of_mem _ List.mem_cons_self
  obtain ⟨front, hfront, -⟩ := hstands odd hodd
  exact ⟨⟨root⟩, hparse, hmark, rfl, front, hfront⟩

end Document
end Docmark
