import Docmark.Proofs.LineBreaks
import Docmark.Proofs.Remarks
import Docmark.Proofs.TypeSections
import Docmark.Proofs.Unbroken

namespace Docmark

variable {ctx : Context} {e : Element}

theorem not_mem_fill {c : Char} {template : Text} {values : List Text}
    (hplain : .char c ∉ Template.pieces template)
    (hslots : ∀ index ∈ Template.slots template, c ∉ values.getD index []) :
    c ∉ fill template values := by
  intro h
  obtain ⟨piece, hp, hin⟩ := List.mem_flatMap.1 h
  cases piece with
  | char d =>
    rw [Piece.value, List.mem_singleton] at hin
    exact hplain (hin ▸ hp)
  | slot index =>
    have hslot : index ∈ Template.slots template := List.mem_filterMap.2 ⟨_, hp, rfl⟩
    rw [Piece.value] at hin
    split at hin
    · exact hslots index hslot hin
    · cases hin

def inlineTags : List Text := ["c", "b", "see", "paramref", "typeparamref", "a"]

namespace Key

def inlineKeys : List Key :=
  [c, b, seePage, seeAnchor, seeLangword, paramRef, typeParamRef, a]

theorem exists_inline (h : e.name ∈ inlineTags) (s : Siblings) (ctx : Context) :
    ∃ key ∈ inlineKeys, of? s ctx e = some key := by
  have hkeys : ∀ tag ∈ inlineTags, tag ≠ "member" ∧
      (tag ≠ "see" → ∃ key ∈ inlineKeys, ofTag? tag = some key) := by
    decide
  obtain ⟨hmember, hkey⟩ := hkeys e.name h
  by_cases hs : e.name = "see"
  · refine ⟨ofSee e, ?_, by rw [of?, if_neg hmember, if_pos hs]⟩
    unfold ofSee
    repeat' split
    all_goals decide
  · obtain ⟨key, hmem, htag⟩ := hkey hs
    refine ⟨key, hmem, ?_⟩
    rw [of?, if_neg hmember, if_neg hs, htag]
    simp only [inlineKeys, List.mem_cons, List.not_mem_nil, or_false] at hmem
    rcases hmem with rfl | rfl | rfl | rfl | rfl | rfl | rfl | rfl <;> rfl

theorem isMember_of_inline : ∀ key ∈ inlineKeys, key.isMember = false := by
  decide

theorem not_mem_template : ∀ key ∈ inlineKeys, .char '\n' ∉ Template.pieces key.rule.template := by
  decide +kernel

end Key

theorem not_mem_getD {c : Char} {values : List Text} (h : ∀ value ∈ values, c ∉ value) (index : Nat) :
    c ∉ values.getD index [] := by
  rw [List.getD_eq_getElem?_getD]
  cases hv : values[index]? with
  | none => exact List.not_mem_nil
  | some value => exact h value (List.mem_of_getElem? hv)

namespace Content

theorem not_mem_linkValues (hctx : ctx.Unbroken) (he : e.Unbroken) :
    ∀ value ∈ linkValues ctx e, '\n' ∉ value := by
  unfold linkValues
  cases hcref : e.attr? "cref" with
  | none => simpa using not_mem_inlineText e
  | some cref => simpa using Link.not_mem_ofCref hctx (he.attr? hcref)

theorem not_mem_anchorValues (he : e.Unbroken) : ∀ value ∈ anchorValues e, '\n' ∉ value := by
  have htarget : '\n' ∉ ((e.attr? "cref").bind pageAnchor?).getD [] := by
    cases hanchor : (e.attr? "cref").bind pageAnchor? with
    | none => exact List.not_mem_nil
    | some target =>
      obtain ⟨cref, hcref, hopening⟩ := Option.bind_eq_some_iff.1 hanchor
      exact fun h => he.attr? hcref (Text.mem_of_dropOpening? hopening h)
  have htext : '\n' ∉ if (inlineText e).isEmpty then ((e.attr? "cref").bind pageAnchor?).getD []
      else inlineText e := by
    split
    · exact htarget
    · exact not_mem_inlineText e
  simp only [anchorValues, List.forall_mem_cons]
  exact ⟨htext, by simpa using htarget, by simp⟩

theorem exists_values {content : Content}
    (h : content ∈ [body, crossReference, anchor, keyword, nameAndBody, hyperlink])
    (hctx : ctx.Unbroken) (he : e.Unbroken) {parts : Parts} {line : Text}
    (hbody : parts.body ctx = .ok line) (hline : '\n' ∉ line) :
    ∃ values, content.values e parts ctx = .ok values ∧ ∀ value ∈ values, '\n' ∉ value := by
  simp only [List.mem_cons, List.not_mem_nil, or_false] at h
  rcases h with rfl | rfl | rfl | rfl | rfl | rfl
  · exact ⟨[line], by rw [values, hbody]; rfl, by simpa using hline⟩
  · exact ⟨_, rfl, not_mem_linkValues hctx he⟩
  · exact ⟨_, rfl, not_mem_anchorValues he⟩
  · refine ⟨_, rfl, ?_⟩
    cases hword : e.attr? "langword" with
    | none => simpa using not_mem_inlineText e
    | some word => simpa using he.attr? hword
  · refine ⟨[displayName ctx.assembly e, line], by rw [values, hbody]; rfl, ?_⟩
    simpa using ⟨he.displayName ctx.assembly, hline⟩
  · refine ⟨_, rfl, ?_⟩
    cases hhref : e.attr? "href" with
    | none => simpa using not_mem_inlineText e
    | some href => simpa using ⟨not_mem_inlineText e, he.attr? hhref⟩

end Content

theorem Key.exists_line {key : Key} (h : key ∈ inlineKeys) (hctx : ctx.Unbroken) (he : e.Unbroken)
    {parts : Parts} {body : Text} (hbody : parts.body ctx = .ok body) (hline : '\n' ∉ body) :
    ∃ line, key.rule.apply e parts ctx = .ok line ∧ '\n' ∉ line := by
  have hcontent : ∀ key ∈ inlineKeys, key = paramRef ∨ key.rule.content ∈
      [Content.body, .crossReference, .anchor, .keyword, .nameAndBody, .hyperlink] := by
    decide
  rcases hcontent key h with rfl | hcontent
  · -- The description of the parameter has no slot, only its name.
    let name := stripNamespace ctx.assembly ((e.attr? "name").getD [])
    have hname : '\n' ∉ name := fun hin => he.getD "name" (mem_of_mem_stripNamespace hin)
    have hvalues : paramRef.rule.content.values e parts ctx =
        .ok [name, Content.parameterBody name body] := by
      change Content.parameter.values e parts ctx = _
      rw [Content.values, hbody]
      rfl
    have hslots : Template.slots paramRef.rule.template = [0] := by decide +kernel
    refine ⟨_, by rw [Rule.apply, hvalues]; rfl, ?_⟩
    refine not_mem_fill (not_mem_template _ h) ?_
    rw [hslots]
    simpa using hname
  · obtain ⟨values, hvalues, hall⟩ := Content.exists_values hcontent hctx he hbody hline
    refine ⟨_, by rw [Rule.apply, hvalues]; rfl, ?_⟩
    exact not_mem_fill (not_mem_template key h) fun index _ => not_mem_getD hall index

namespace Node

theorem exists_renderAll {P : Text → Prop} (hnil : P [])
    (happend : ∀ s t, P s → P t → P (s ++ t)) {nodes : List Node}
    (h : ∀ n ∈ nodes, ∀ s, ∃ text, n.render s ctx = .ok text ∧ P text) (s : Siblings) :
    ∃ text, renderAll s ctx nodes = .ok text ∧ P text := by
  induction nodes generalizing s with
  | nil => exact ⟨[], rfl, hnil⟩
  | cons n nodes ih =>
    obtain ⟨here, hn, hhere⟩ := h n List.mem_cons_self s
    obtain ⟨more, hs, hmore⟩ := ih (fun m hm => h m (List.mem_cons_of_mem n hm)) (s.past ctx n)
    exact ⟨here ++ more, renderAll_cons_ok hn hs, happend _ _ hhere hmore⟩

theorem exists_renderAll_line {nodes : List Node}
    (h : ∀ n ∈ nodes, ∀ s, ∃ line, n.render s ctx = .ok line ∧ '\n' ∉ line) (s : Siblings) :
    ∃ line, renderAll s ctx nodes = .ok line ∧ '\n' ∉ line := by
  refine exists_renderAll List.not_mem_nil ?_ h s
  intro front back hfront hback
  simp [hfront, hback]

theorem render_text (s : Siblings) (ctx : Context) (content : Text) :
    (text content).render s ctx = .ok (Text.collapse content) := by
  rw [render]
  rfl

theorem exists_line (hctx : ctx.Unbroken) {n : Node} (hinline : ∀ tag ∈ n.tags, tag.name ∈ inlineTags)
    (hn : n.Unbroken) (s : Siblings) : ∃ line, n.render s ctx = .ok line ∧ '\n' ∉ line := by
  induction n generalizing s with
  | text content =>
    exact ⟨_, render_text s ctx content, Text.not_mem_collapse rfl (by decide) content⟩
  | element tag children ih =>
    let e : Element := ⟨tag, children⟩
    have he : e.Unbroken := hn
    have hname : e.name ∈ inlineTags := hinline tag List.mem_cons_self
    obtain ⟨body, hbody, hline⟩ := exists_renderAll_line
      (fun n hmem => ih n hmem (fun t ht => hinline t (tags_subset hmem ht)) (hn.below hmem)) (.under e)
    obtain ⟨key, hkey, hof⟩ := Key.exists_inline hname s ctx
    have hmember : e.name ≠ "member" := by
      intro hmember
      rw [hmember] at hname
      exact absurd hname (by decide)
    have hunder : ctx.under key e = ctx := by
      rw [Context.under, Key.isMember_of_inline key hkey]
      rfl
    change ∃ line, e.toNode.render s ctx = .ok line ∧ '\n' ∉ line
    rw [Element.render_of_key hmember hof, hunder]
    exact Key.exists_line hkey hctx he hbody hline

theorem exists_renderAll_blank {nodes : List Node} (helements : ∀ n ∈ nodes, n.element? = none)
    (hblank : ∀ content, .text content ∈ nodes → Text.allBlank content = true) (ctx : Context)
    (s : Siblings) :
    ∃ space, renderAll s ctx nodes = .ok space ∧ '\n' ∉ space ∧ Text.allBlank space = true := by
  refine exists_renderAll ⟨List.not_mem_nil, rfl⟩ ?_ ?_ s
  · rintro front back ⟨hfront, hspace⟩ ⟨hback, hspace'⟩
    exact ⟨by simp [hfront, hback], by rw [Text.allBlank_append, hspace, hspace']; rfl⟩
  · intro n hn s
    cases n with
    | element => cases helements _ hn
    | text content =>
      have hspace : Text.allBlank (Text.collapse content) = true := by
        rw [← (Text.rewraps_collapse content).allBlank_eq, hblank content hn]
      exact ⟨_, render_text s ctx content, Text.not_mem_collapse rfl (by decide) content, hspace⟩

end Node

def summaryEnding (kind : Kind) : Text :=
  if kind = .field then [] else "\n\n"

theorem Rule.apply_body {rule : Rule} (hc : rule.content = .body) {parts : Parts} {body : Text}
    (hbody : parts.body ctx = .ok body) :
    rule.apply e parts ctx = .ok (fill rule.template [body]) := by
  rw [apply, hc, Content.values, hbody]
  rfl

theorem Element.render_summary {summary : Element} (hname : summary.name = "summary") {s : Siblings}
    {kind : Kind} (hkind : Key.ownerKind? s ctx = some kind) {body : Text}
    (hbody : summary.parts.body ctx = .ok body) :
    summary.toNode.render s ctx = .ok (body ++ summaryEnding kind) := by
  have htag : Key.ofTag? ("summary" : Text) = some .summary := by decide
  have hkey : Key.of? s ctx summary =
      some (if kind = .field then Key.fieldSummary else Key.summary) := by
    rw [Key.of?, hname, if_neg (by decide), if_neg (by decide), htag, hkind]
    simp only [Option.some.injEq]
  have hfill (ending : Text) (he : '{' ∉ ending) : fill ("{0}" ++ ending) [body] = body ++ ending :=
    @fill_around [] ending List.not_mem_nil he body
  rw [render_of_key (hname ▸ by decide) hkey, summaryEnding]
  split
  · exact (Rule.apply_body rfl hbody).trans (congrArg Outcome.ok (hfill [] List.not_mem_nil))
  · exact (Rule.apply_body rfl hbody).trans (congrArg Outcome.ok (hfill "\n\n" (by decide)))

namespace Content

variable {raw : Text} {id : MemberId}

theorem not_mem_rowBody (hid : MemberId.parse? raw = some id) {lead line trail : Text}
    (hlead : '\n' ∉ lead) (hline : '\n' ∉ line) (htrail : '\n' ∉ trail)
    (hblank : Text.allBlank trail = true) :
    '\n' ∉ rowBody raw (lead ++ (line ++ summaryEnding id.kind ++ trail)) := by
  rw [rowBody, hid, summaryEnding]
  dsimp only
  split
  · simp [hlead, hline, htrail]
  · have hspace : ("\n\n" ++ trail).all isBlank = true := by
      simp only [List.all_append, Bool.and_eq_true]
      exact ⟨by decide, hblank⟩
    have htrim : Text.trimEnd isBlank (lead ++ (line ++ "\n\n" ++ trail)) =
        Text.trimEnd isBlank (lead ++ line) := by
      rw [← Text.trimEnd_append_space hspace (lead ++ line)]
      simp only [List.append_assoc]
    have hbody : '\n' ∉ Text.trimEnd isBlank (lead ++ line) := by
      intro h
      rcases List.mem_append.1 (Text.mem_of_mem_trimEnd h) with h | h
      · exact hlead h
      · exact hline h
    rw [htrim, Text.squeezeBreaks_eq_self]
    · exact hbody
    · exact fun h => hbody (h.subset List.mem_cons_self)

theorem not_mem_rowType (hctx : ctx.Unbroken) (hid : MemberId.parse? raw = some id)
    (htype : ∀ type ∈ declaredType? ctx id, type.Unbroken) : '\n' ∉ rowType ctx raw := by
  rw [rowType, hid]
  dsimp only
  cases hd : declaredType? ctx id with
  | none =>
    have hletter : '\n' ∉ [id.kind.letter] := by cases id.kind <;> decide
    exact hletter
  | some type => exact (htype type hd).cell hctx.assembly

end Content

def rowText (name type body : Text) : Text :=
  "|" ++ name ++ "|" ++ type ++ "|" ++ body ++ "|"

theorem not_mem_rowText {name type body : Text} (hname : '\n' ∉ name) (htype : '\n' ∉ type)
    (hbody : '\n' ∉ body) : '\n' ∉ rowText name type body := by
  simp [rowText, hname, htype, hbody]

theorem fill_row (name body type : Text) :
    fill "|{0}|{2}|{1}|\n" [name, body, type] = rowText name type body ++ "\n" := by
  have hpieces : Template.pieces "|{0}|{2}|{1}|\n" =
      [.char '|', .slot 0, .char '|', .slot 2, .char '|', .slot 1, .char '|', .char '\n'] := by
    decide +kernel
  rw [fill, hpieces, rowText]
  simp [Piece.value, UInt64.size]

theorem Key.unheaded_of_row {raw : Text} {id : MemberId} (hid : MemberId.parse? raw = some id)
    (hk : id.kind = .field ∨ id.kind = .property) (last : Option Run) :
    (ofMember last (some raw)).unheaded.rule = ⟨"|{0}|{2}|{1}|\n", .memberRow⟩ := by
  have hrun : Run.of? raw = some ⟨id.kind, id.isConstructor⟩ := by rw [Run.of?, hid]
  simp only [ofMember, hrun]
  rcases hk with hk | hk <;> rw [hk] <;> rfl

namespace Node

variable {raw : Text} {id : MemberId} {summary : Element}

theorem exists_body (hctx : ctx.Unbroken) (hu : e.Unbroken) (hraw : e.attr? "name" = some raw)
    (hid : MemberId.parse? raw = some id) (hname : summary.name = "summary")
    (helements : e.elements = [summary])
    (hblank : ∀ content, .text content ∈ e.children → Text.allBlank content = true)
    (hinline : ∀ tag ∈ tagsAll summary.children, tag.name ∈ inlineTags) :
    ∃ lead line trail, e.parts.body ctx = .ok (lead ++ (line ++ summaryEnding id.kind ++ trail)) ∧
      '\n' ∉ lead ∧ '\n' ∉ line ∧ '\n' ∉ trail ∧ Text.allBlank trail = true := by
  obtain ⟨before, n, behind, hchildren, hbefore, hn, hbehind⟩ := List.filterMap_eq_cons_iff.1 helements
  rw [List.filterMap_eq_nil_iff] at hbehind
  cases eq_toNode_of_element? hn
  have hin {m : Node} (hm : m ∈ before ∨ m ∈ behind) : m ∈ e.children := by
    rw [hchildren]
    rcases hm with hm | hm
    · exact List.mem_append_left _ hm
    · exact List.mem_append_right _ (List.mem_cons_of_mem _ hm)
  have hpast : (Siblings.under e).pastAll ctx before = .under e := by
    refine Siblings.pastAll_texts ?_ _ ctx
    intro m hm
    cases m with
    | text => rfl
    | element => cases hbefore _ hm
  have howner : Key.ownerKind? (.under e) ctx = some id.kind := by
    change (e.attr? "name").bind Kind.ofOpening? = some id.kind
    rw [hraw, Option.bind_some, MemberId.kind_of_parse? hid]
  have hsummary : summary.Unbroken := hu.child (helements ▸ List.mem_singleton_self summary)
  obtain ⟨lead, hlead, hlead', -⟩ := exists_renderAll_blank hbefore
    (fun content hc => hblank content (hin (.inl hc))) ctx (.under e)
  obtain ⟨line, hline, hline'⟩ := exists_renderAll_line
    (fun m hm => exists_line hctx
      (fun tag ht => hinline tag (tagsAll_eq_flatMap _ ▸ List.mem_flatMap.2 ⟨m, hm, ht⟩))
      (hsummary.below hm)) (.under summary)
  obtain ⟨trail, htrail, htrail', hspace⟩ := exists_renderAll_blank hbehind
    (fun content hc => hblank content (hin (.inr hc))) ctx
    ((Siblings.under e).past ctx summary.toNode)
  refine ⟨lead, line, trail, ?_, hlead', hline', htrail', hspace⟩
  change renderAll (.under e) ctx e.children = _
  rw [hchildren]
  refine renderAll_append_ok hlead ?_
  rw [hpast]
  exact renderAll_cons_ok (Element.render_summary hname howner hline) htrail

/-- The row of a shown field or property with one summary that is nothing but text and elements inside
of a line: whatever line feeds its texts hold, the only one left ends the row. -/
theorem rows_stand_on_one_line (hctx : ctx.Unbroken) (hu : e.Unbroken) (he : e.name = "member")
    (hraw : e.attr? "name" = some raw) (hid : MemberId.parse? raw = some id)
    (hk : id.kind = .field ∨ id.kind = .property) (hv : ctx.isHidden e = false)
    (htype : ∀ type ∈ Content.declaredType? ctx id, type.Unbroken)
    (hname : summary.name = "summary") (helements : e.elements = [summary])
    (hblank : ∀ content, .text content ∈ e.children → Text.allBlank content = true)
    (hinline : ∀ tag ∈ tagsAll summary.children, tag.name ∈ inlineTags) (s : Siblings) :
    ∃ key line, Key.of? s ctx e = some key ∧ '\n' ∉ line ∧
      e.toNode.render s ctx =
        .ok ((if key.isFirst then key.title else []) ++ (line ++ "\n")) := by
  let inside : Context := { ctx with member := some e }
  have hinside : inside.Unbroken := ⟨hctx.assembly, hctx.members⟩
  obtain ⟨lead, line, trail, hbody, hlead, hline, htrail, hspace⟩ :=
    exists_body hinside hu hraw hid hname helements hblank hinline
  let key := Key.ofMember s.last (some raw)
  let name := displayName ctx.assembly e
  let body := Content.rowBody raw (lead ++ (line ++ summaryEnding id.kind ++ trail))
  let type := Content.rowType inside raw
  have hrow : key.unheaded.rule.apply e e.parts inside =
      .ok (rowText name type body ++ "\n") := by
    have hvalues : Content.memberRow.values e e.parts inside = .ok [name, body, type] := by
      rw [Content.values, hbody, hraw]
      rfl
    rw [Key.unheaded_of_row hid hk, Rule.apply, hvalues]
    exact congrArg Outcome.ok (fill_row name body type)
  have hname' : '\n' ∉ name := hu.displayName ctx.assembly
  have hbody' : '\n' ∉ body := Content.not_mem_rowBody hid hlead hline htrail hspace
  have htype' : '\n' ∉ type := Content.not_mem_rowType hinside hid htype
  refine ⟨key, rowText name type body, ?_, not_mem_rowText hname' htype' hbody', ?_⟩
  · rw [Key.of?, if_pos he, hraw]
  · rw [render_visible_member he hv, hraw, Key.rule_eq_headed]
    exact Rule.apply_headed_of_eq_ok key.not_mem_title_of_first hrow

def sizeSummary : Element :=
  let link : Node := .element ⟨"see", [("cref", "M:Foo.Bar.Get(System.Int32)")], ⟨4, 9⟩⟩ []
  let code : Node := .element ⟨"c", [], ⟨4, 6⟩⟩ [.text "\n  as in ", link]
  ⟨⟨"summary", [], ⟨3, 3⟩⟩,
    [.text "\n  The size,\n  ", .element ⟨"b", [], ⟨4, 3⟩⟩ [code], .text "\n  "]⟩

def sizeMember : Element :=
  ⟨⟨"member", [("name", "P:Foo.Bar.Size")], ⟨2, 1⟩⟩,
    [.text "\n  ", sizeSummary.toNode, .text "\n"]⟩

def sizeContext : Context where
  assembly := "Foo"
  options := ⟨.error, .perAssembly⟩
  resolver := ⟨fun _ => true, fun _ _ _ => some ⟨"Item[]", "Foo.Parts", some "Foo", []⟩⟩
  members := [sizeMember, memberWith "M:Foo.Bar.Get(System.Int32)" ["index"]]
  member := none

theorem rows_stand_on_one_line_nested :
    sizeContext.Unbroken ∧ sizeMember.Unbroken ∧ sizeContext.isHidden sizeMember = false ∧
      ∃ line, '\n' ∉ line ∧ sizeMember.toNode.render .start sizeContext =
        .ok ((Key.property true).title ++ (line ++ "\n")) := by
  have hattributes : ∀ m ∈ sizeContext.members, ∀ tag ∈ m.toNode.tags, ∀ a ∈ tag.attributes,
      '\n' ∉ a.2 := by
    decide
  have hctx : sizeContext.Unbroken := ⟨by decide, hattributes⟩
  have hu : sizeMember.Unbroken := hattributes sizeMember List.mem_cons_self
  have hid : MemberId.parse? "P:Foo.Bar.Size" =
      some ⟨.property, "Foo.Bar.Size", none, "P:Foo.Bar.Size"⟩ := by
    decide
  have htype : ∀ type ∈ Content.declaredType? sizeContext
      ⟨.property, "Foo.Bar.Size", none, "P:Foo.Bar.Size"⟩, type.Unbroken := by
    rintro _ ⟨⟩
    exact ⟨by decide, by decide, by decide, by decide⟩
  have hblank : ∀ content, .text content ∈ sizeMember.children → Text.allBlank content = true := by
    intro content hc
    rcases List.mem_cons.1 hc with h | hc
    · cases h
      rfl
    · rcases List.mem_cons.1 hc with h | hc
      · cases h
      · cases List.mem_singleton.1 hc
        rfl
  have helements : sizeMember.elements = [sizeSummary] := rfl
  obtain ⟨key, line, hkey, hline, hrender⟩ := rows_stand_on_one_line hctx hu rfl rfl hid (.inr rfl) rfl
    htype rfl helements hblank (by decide) .start
  have hfirst : Key.of? .start sizeContext sizeMember = some (.property true) := by decide
  cases hkey.symm.trans hfirst
  exact ⟨hctx, hu, rfl, line, hline, hrender⟩

end Node

end Docmark
