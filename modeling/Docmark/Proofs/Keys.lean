import Docmark.Page.Walk

namespace Docmark

theorem Element.render_toNode (s : Siblings) (ctx : Context) (e : Element) :
    e.toNode.render s ctx =
      if e.name = "member" ∧ ctx.isHidden e then .ok []
      else
        match Key.of? s ctx e with
        | none => ctx.unknown e.tag
        | some key => key.rule.apply e e.parts (ctx.under key e) := by
  rw [toNode, Node.render]
  rfl

theorem Element.render_of_key {s : Siblings} {ctx : Context} {e : Element} {key : Key}
    (h : e.name ≠ "member") (hkey : Key.of? s ctx e = some key) :
    e.toNode.render s ctx = key.rule.apply e e.parts (ctx.under key e) := by
  rw [render_toNode, if_neg fun hmember => h hmember.1, hkey]

namespace Node

theorem elements_cons (tag : StartTag) (children nodes : List Node) :
    (element tag children :: nodes).filterMap element? = ⟨tag, children⟩ :: nodes.filterMap element? :=
  rfl

theorem renderMemberList_eq (s : Siblings) (ctx : Context) (nodes : List Node) :
    renderMemberList s ctx nodes = renderAll s ctx (nodes.filter (isNamed "member")) := by
  induction nodes generalizing s with
  | nil => rfl
  | cons n nodes ih =>
    rw [renderMemberList]
    by_cases hn : n.isNamed "member" = true
    · rw [if_pos hn, List.filter_cons_of_pos hn, renderAll, ih]
    · rw [if_neg hn, List.filter_cons_of_neg hn, ih]

theorem renderAssembly_eq (ctx : Context) (nodes : List Node) : renderAssembly ctx nodes =
    (nodes.find? (isNamed "assembly")).elim (.ok []) (render .start ctx) := by
  induction nodes with
  | nil => rfl
  | cons n nodes ih =>
    rw [renderAssembly]
    by_cases hn : n.isNamed "assembly" = true
    · rw [if_pos hn, List.find?_cons_of_pos hn, Option.elim_some]
    · rw [if_neg hn, List.find?_cons_of_neg hn, ih]

theorem renderFirstMembers_eq (ctx : Context) (nodes : List Node) : renderFirstMembers ctx nodes =
    (nodes.find? (isNamed "members")).elim (.ok []) (renderMembers ctx) := by
  induction nodes with
  | nil => rfl
  | cons n nodes ih =>
    rw [renderFirstMembers]
    by_cases hn : n.isNamed "members" = true
    · rw [if_pos hn, List.find?_cons_of_pos hn, Option.elim_some]
    · rw [if_neg hn, List.find?_cons_of_neg hn, ih]

theorem filter_elements (name : Text) (nodes : List Node) :
    (nodes.filter (isNamed name)).filterMap element? =
      (nodes.filterMap element?).filter (·.name = name) := by
  rw [List.filterMap_filter, List.filter_filterMap]
  congr 1
  funext n
  cases n with
  | text => rfl
  | element tag children =>
    by_cases ht : tag.name = name <;> simp [isNamed, element?, Option.filter, Element.name, ht]

theorem find?_elements (name : Text) (nodes : List Node) :
    (nodes.find? (isNamed name)).bind element? = (nodes.filterMap element?).find? (·.name = name) := by
  rw [List.find?_filterMap]
  congr 2
  funext n
  cases n <;> rfl

end Node

namespace Key

theorem exists_of_ofTag? {tag : Text} {key : Key} (h : ofTag? tag = some key) :
    ∃ entry ∈ tags, entry.1.toList = tag ∧ entry.2 = key := by
  obtain ⟨entry, hfind, rfl⟩ := Option.map_eq_some_iff.1 h
  have hname := List.find?_some hfind
  exact ⟨entry, List.mem_of_find?_eq_some hfind, of_decide_eq_true hname, rfl⟩

theorem content_of? {s : Siblings} {ctx : Context} {e : Element} {key : Key}
    (h : of? s ctx e = some key) (hm : e.name ≠ "member") (hs : e.name ≠ "see")
    (hr : e.name ≠ "remarks") :
    ∃ entry ∈ tags, entry.1.toList = e.name ∧ entry.2.rule.content = key.rule.content := by
  -- The keys of the three names hang on more than what stands in front of the element or around it.
  have hfirst (k : Bool → Key) (hk : ∀ a b, (k a).rule.content = (k b).rule.content) {b : Bool}
      (ht : ofTag? e.name = some (k false)) (hkey : some (k b) = some key) :
      ∃ entry ∈ tags, entry.1.toList = e.name ∧ entry.2.rule.content = key.rule.content := by
    obtain ⟨entry, hmem, hname, hentry⟩ := exists_of_ofTag? ht
    cases hkey
    exact ⟨entry, hmem, hname, hentry ▸ hk _ _⟩
  rw [of?, if_neg hm, if_neg hs] at h
  split at h
  case h_1 ht => exact hfirst param (by decide) ht h
  case h_2 ht => exact hfirst typeParam (by decide) ht h
  case h_3 ht => exact hfirst seeAlso (by decide) ht h
  case h_4 ht =>
    obtain ⟨entry, hmem, hname, hentry⟩ := exists_of_ofTag? ht
    cases h
    refine ⟨entry, hmem, hname, ?_⟩
    rw [hentry]
    split <;> rfl
  case h_5 ht =>
    obtain ⟨entry, hmem, hname, hentry⟩ := exists_of_ofTag? ht
    have hremarks : ∀ entry ∈ tags, entry.2 = remarks → entry.1.toList = ("remarks" : Text) := by
      decide +kernel
    exact absurd (hname.symm.trans (hremarks entry hmem hentry)) hr
  case h_6 =>
    obtain ⟨entry, hmem, hname, hentry⟩ := exists_of_ofTag? h
    exact ⟨entry, hmem, hname, hentry ▸ rfl⟩

theorem of?_remarks {s : Siblings} {ctx : Context} {e : Element} (hr : e.name = "remarks") :
    of? s ctx e = some (if e.textContent.isEmpty then nameRemarks else remarks) := by
  have ht : ofTag? ("remarks" : Text) = some remarks := by decide +kernel
  rw [of?, hr, if_neg (by decide), if_neg (by decide), ht]

theorem content_ofSee (e : Element) :
    (ofSee e).rule.content ∈ [Content.crossReference, .anchor, .keyword] := by
  unfold ofSee
  repeat' split
  all_goals decide

theorem isMember_ofMember (last : Option Run) (name : Option Text) :
    (ofMember last name).isMember = true := by
  cases name with
  | none => rfl
  | some raw =>
    cases hr : Run.of? raw with
    | none =>
      simp only [ofMember, hr]
      split <;> rfl
    | some run =>
      obtain ⟨kind, isConstructor⟩ := run
      simp only [ofMember, hr]
      cases kind with
      | method => cases isConstructor <;> rfl
      | type | property | field | event | scope => rfl

theorem content_of_isMember {key : Key} (h : key.isMember = true) :
    key.rule.content ∈ [Content.nameAndBody, .memberRow, .nothing] := by
  cases key with
  | type | nothing => decide
  | field first | property first | method first | constructor first | event first =>
    cases first <;> decide
  | _ => cases h

theorem name_of_content {s : Siblings} {ctx : Context} {e : Element} {key : Key}
    (h : of? s ctx e = some key) {c : Content} (hc : c = .codeBlock ∨ c = .document)
    (hkey : key.rule.content = c) : ∃ entry ∈ tags, entry.1.toList = e.name ∧
      entry.2.rule.content = c := by
  subst hkey
  by_cases hm : e.name = "member"
  · rw [of?, if_pos hm] at h
    cases h
    have hcontent := content_of_isMember (isMember_ofMember s.last (e.attr? "name"))
    rcases hc with hc | hc <;> rw [hc] at hcontent <;> exact absurd hcontent (by decide)
  · by_cases hs : e.name = "see"
    · rw [of?, if_neg hm, if_pos hs] at h
      cases h
      have hcontent := content_ofSee e
      rcases hc with hc | hc <;> rw [hc] at hcontent <;> exact absurd hcontent (by decide)
    · by_cases hr : e.name = "remarks"
      · rw [of?_remarks hr] at h
        cases h
        split at hc <;> rcases hc with hc | hc <;> cases hc
      · exact content_of? h hm hs hr

theorem name_of_codeBlock {s : Siblings} {ctx : Context} {e : Element} {key : Key}
    (h : of? s ctx e = some key) (hc : key.rule.content = .codeBlock) : e.name = "code" := by
  obtain ⟨entry, hmem, hname, hentry⟩ := name_of_content h (Or.inl rfl) hc
  have hcode : ∀ entry ∈ tags, entry.2.rule.content = .codeBlock → entry.1 = "code" := by
    decide +kernel
  rw [← hname, hcode entry hmem hentry]

theorem name_of_document {s : Siblings} {ctx : Context} {e : Element} {key : Key}
    (h : of? s ctx e = some key) (hc : key.rule.content = .document) : e.name = "doc" := by
  obtain ⟨entry, hmem, hname, hentry⟩ := name_of_content h (Or.inr rfl) hc
  have hdoc : ∀ entry ∈ tags, entry.2.rule.content = .document → entry.1 = "doc" := by
    decide +kernel
  rw [← hname, hdoc entry hmem hentry]

end Key
end Docmark
