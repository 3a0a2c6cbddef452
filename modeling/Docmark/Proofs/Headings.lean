import Docmark.Proofs.Keys
import Docmark.Proofs.Templates

namespace Docmark

theorem Outcome.result_map {α β : Type} (x : Outcome α) (f : α → β) :
    (x >>= fun a => ok (f a)).result = x.result.map f := by
  cases hx : x.result with
  | error u => rw [bind_result_error hx, Except.map]
  | ok a => rw [bind_result_ok hx, Except.map, withWarnings, ok]

structure Rule.Heads (rule : Rule) (opening gap : Text) : Prop where
  content_eq : rule.content = .nameAndBody
  template_eq : rule.template = opening ++ ("{0}" ++ (gap ++ "{1}\n"))
  opening_plain : '{' ∉ opening
  gap_plain : '{' ∉ gap

theorem fill_heading {opening gap : Text} (ho : '{' ∉ opening) (hg : '{' ∉ gap) (name body : Text) :
    fill (opening ++ ("{0}" ++ (gap ++ "{1}\n"))) [name, body] =
      opening ++ (name ++ (gap ++ (body ++ "\n"))) := by
  have hdigit (d : Char) (h : d.isDigit = true) : ∀ c ∈ [d], c.isDigit = true := by
    intro c hc
    rwa [List.mem_singleton.1 hc]
  have hname : fill ("{0}" ++ (gap ++ "{1}\n")) [name, body] =
      name ++ fill (gap ++ "{1}\n") [name, body] :=
    fill_slot (List.cons_ne_nil _ _) (hdigit '0' rfl) (by decide) _ _
  have hbody : fill "{1}\n" [name, body] = body ++ fill "\n" [name, body] :=
    fill_slot (List.cons_ne_nil _ _) (hdigit '1' rfl) (by decide) _ _
  have hend : fill "\n" [name, body] = "\n" ++ fill [] [name, body] :=
    fill_append (s := "\n") (by decide) [] _
  rw [fill_append ho, hname, fill_append hg, hbody, hend, fill, Template.pieces]
  rfl

theorem Rule.Heads.result_apply {rule : Rule} {opening gap : Text} (h : rule.Heads opening gap)
    (e : Element) (parts : Parts) (ctx : Context) :
    (rule.apply e parts ctx).result = (parts.body ctx).result.map fun body =>
      opening ++ (displayName ctx.assembly e ++ (gap ++ (body ++ "\n"))) := by
  have hvalues : rule.content.values e parts ctx =
      (parts.body ctx >>= fun body => Outcome.ok [displayName ctx.assembly e, body]) := by
    rw [h.content_eq]
    rfl
  rw [apply, hvalues, h.template_eq]
  simp only [Outcome.pure_eq_ok, Outcome.result_map]
  cases (parts.body ctx).result with
  | error u => rfl
  | ok body => exact congrArg Except.ok (fill_heading h.opening_plain h.gap_plain _ _)

theorem Node.render_visible_member {ctx : Context} {e : Element} (he : e.name = "member")
    (hv : ctx.isHidden e = false) (s : Siblings) :
    e.toNode.render s ctx =
      (Key.ofMember s.last (e.attr? "name")).rule.apply e e.parts { ctx with member := some e } := by
  have hkey : Key.of? s ctx e = some (Key.ofMember s.last (e.attr? "name")) := if_pos he
  have hshown : ¬ (e.tag.name = "member" ∧ ctx.isHidden e = true) := by
    rw [hv]
    exact fun h => Bool.false_ne_true h.2
  rw [Element.toNode, render, if_neg hshown, hkey]
  dsimp only
  rw [Context.under, if_pos (Key.isMember_ofMember _ _)]
  rfl

def Kind.headed? : Kind → Option (Text × Text)
  | type => some ("## ", "\n\n")
  | method | event => some ("##### ", "\n")
  | property | field | scope => none

theorem Key.heads_ofMember {raw marks gap : Text} {id : MemberId}
    (hid : MemberId.parse? raw = some id) (hk : id.kind.headed? = some (marks, gap))
    (last : Option Run) : ∃ opening, (ofMember last (some raw)).rule.Heads (opening ++ marks) gap := by
  have hrun : Run.of? raw = some ⟨id.kind, id.isConstructor⟩ := by
    rw [Run.of?, hid]
  simp only [ofMember, hrun]
  cases hkind : id.kind with
  | type =>
    rw [hkind] at hk
    cases hk
    exact ⟨"\n---\n", rfl, rfl, by decide +kernel, by decide +kernel⟩
  | method =>
    rw [hkind] at hk
    cases hk
    cases id.isConstructor with
    | true =>
      cases last.any (·.isConstructor) with
      | true => exact ⟨"\n", rfl, rfl, by decide +kernel, by decide +kernel⟩
      | false => exact ⟨"\n#### Constructors:\n\n", rfl, rfl, by decide +kernel, by decide +kernel⟩
    | false =>
      cases last.any fun r => r.kind == .method && !r.isConstructor with
      | true => exact ⟨"\n", rfl, rfl, by decide +kernel, by decide +kernel⟩
      | false => exact ⟨"\n#### Methods:\n\n", rfl, rfl, by decide +kernel, by decide +kernel⟩
  | event =>
    rw [hkind] at hk
    cases hk
    cases last.any (·.kind == .event) with
    | true => exact ⟨[], rfl, rfl, by decide +kernel, by decide +kernel⟩
    | false => exact ⟨"\n#### Events:\n", rfl, rfl, by decide +kernel, by decide +kernel⟩
  | property | field | scope =>
    rw [hkind] at hk
    cases hk

theorem Node.result_render_headed {ctx : Context} {e : Element} {raw marks gap : Text} {id : MemberId}
    (he : e.name = "member") (hname : e.attr? "name" = some raw)
    (hid : MemberId.parse? raw = some id) (hk : id.kind.headed? = some (marks, gap))
    (hv : ctx.isHidden e = false) (s : Siblings) :
    ∃ opening, (e.toNode.render s ctx).result =
      (e.parts.body { ctx with member := some e }).result.map fun body =>
        opening ++ (marks ++ (displayName ctx.assembly e ++ (gap ++ (body ++ "\n")))) := by
  obtain ⟨opening, hheads⟩ := Key.heads_ofMember hid hk s.last
  refine ⟨opening, ?_⟩
  rw [render_visible_member he hv, hname, hheads.result_apply]
  simp only [List.append_assoc]

theorem MemberIndex.get?_of_filter {members : MemberIndex} {raw : Text} {e : Element}
    (h : members.filter (fun m => m.attr? "name" = some raw) = [e]) : members.get? raw = some e := by
  rw [get?, ← List.head?_filter, List.filter_reverse, h]
  rfl

theorem Link.ofCref_of_parse? {raw : Text} {id : MemberId} (hid : MemberId.parse? raw = some id)
    (ctx : Context) :
    ofCref ctx raw = ⟨displayOf ctx id, targetOf ctx (assemblyOf ctx id) (anchorOf ctx id)⟩ := by
  rw [ofCref, hid]

namespace Document

theorem name_of_mem_members {d : Document} {e : Element} (h : e ∈ d.members) : e.name = "member" := by
  unfold members at h
  split at h
  · exact of_decide_eq_true (List.mem_filter.1 h).2
  · exact absurd h List.not_mem_nil

theorem mem_members_of_filter {d : Document} {raw : Text} {e : Element}
    (h : d.members.filter (fun m => m.attr? "name" = some raw) = [e]) :
    e.name = "member" ∧ e.attr? "name" = some raw := by
  have hlisted : e ∈ d.members.filter fun m => m.attr? "name" = some raw := h ▸ List.mem_singleton_self e
  obtain ⟨hmem, hname⟩ := List.mem_filter.1 hlisted
  exact ⟨name_of_mem_members hmem, of_decide_eq_true hname⟩

theorem method_links_reach_headings {d : Document} {ctx : Context} {raw : Text} {id : MemberId}
    {e : Element} (hid : MemberId.parse? raw = some id) (hk : id.kind = .method)
    (he : d.members.filter (fun m => m.attr? "name" = some raw) = [e])
    (hm : ctx.members = d.members) :
    let heading := displayName ctx.assembly e
    let link := Link.ofCref ctx raw
    link.display = heading ∧
    link.target = (match ctx.options.layout with
      | .singlePage => "#" ++ Text.slug heading
      | .perAssembly => "../" ++ ctx.assembly ++ "/#" ++ Text.slug heading) ∧
    (ctx.isHidden e = false → ∀ s, ∃ opening, (e.toNode.render s ctx).result =
      (e.parts.body { ctx with member := some e }).result.map fun body =>
        opening ++ ("##### " ++ (heading ++ ("\n" ++ (body ++ "\n"))))) := by
  intro heading link
  have hmember : ctx.members.get? id.raw = some e := by
    rw [hm, MemberId.raw_of_parse? hid]
    exact MemberIndex.get?_of_filter he
  have hdisplay : Link.displayOf ctx id = heading := by
    rw [Link.displayOf, if_pos hk, hmember]
  have hanchor : Link.anchorOf ctx id = Text.slug heading := by
    rw [Link.anchorOf, if_pos hk, hdisplay]
  have hassembly : Link.assemblyOf ctx id = ctx.assembly := by
    simp [Link.assemblyOf, hk]
  have hlink : link = ⟨heading, Link.targetOf ctx ctx.assembly (Text.slug heading)⟩ := by
    rw [← hanchor, ← hassembly, ← hdisplay]
    exact Link.ofCref_of_parse? hid ctx
  obtain ⟨hmem, hname⟩ := mem_members_of_filter he
  refine ⟨by rw [hlink], ?_, ?_⟩
  · rw [hlink, Link.targetOf, Context.isSinglePage]
    cases ctx.options.layout <;> rfl
  · exact fun hv s => Node.result_render_headed hmem hname hid (by rw [hk]; rfl) hv s

def getter : Text :=
  "M:Foo.Bar`1.Get``1(`0,System.String[])"

def getterDocument : Document :=
  let param (name : Text) : Element := ⟨⟨"param", [("name", name)], ⟨5, 6⟩⟩, []⟩
  let member (name : Text) (params : List Element) : Node :=
    .element ⟨"member", [("name", name)], ⟨4, 5⟩⟩ (params.map Element.toNode)
  ⟨⟨⟨"doc", [], ⟨1, 1⟩⟩,
    [.element ⟨"members", [], ⟨2, 2⟩⟩
      [member "M:Foo.Bar`1.#ctor" [], member getter [param "key", param "label"]]]⟩⟩

def getterContext : Context where
  assembly := "Foo"
  options := ⟨.error, .perAssembly⟩
  resolver := .unknown
  members := getterDocument.members
  member := none

theorem method_links_reach_headings_getter :
    ∃ id e, MemberId.parse? getter = some id ∧ id.kind = .method ∧
      getterDocument.members.filter (fun m => m.attr? "name" = some getter) = [e] ∧
      getterContext.members = getterDocument.members ∧ getterContext.isHidden e = false ∧
      (Link.ofCref getterContext getter).display = "Get(`0 key, String[] label)" ∧
      (Link.ofCref getterContext getter).target = "../Foo/#get0-key-string-label" := by
  let id : MemberId := ⟨.method, "Foo.Bar`1.Get``1", some ["`0", "System.String[]"], getter⟩
  have hid : MemberId.parse? getter = some id := by decide
  have he : getterDocument.members.filter (fun m => m.attr? "name" = some getter) =
      [getterDocument.members[1]] := rfl
  have hheading : displayName "Foo" getterDocument.members[1] = "Get(`0 key, String[] label)" := by
    decide +kernel
  have hslug : Text.slug "Get(`0 key, String[] label)" = "get0-key-string-label" := by
    decide +kernel
  have hm : getterContext.members = getterDocument.members := rfl
  obtain ⟨hdisplay, htarget, -⟩ := method_links_reach_headings hid rfl he hm
  refine ⟨id, _, hid, rfl, he, hm, rfl, hdisplay.trans hheading, htarget.trans ?_⟩
  have hassembly : getterContext.assembly = "Foo" := rfl
  rw [hassembly, hheading, hslug]
  rfl

end Document
end Docmark
