import Docmark.Proofs.Keys
import Docmark.Proofs.Reach

namespace Docmark

def Content.isClosed : Content → Bool
  | nothing | memberName | codeBlock | crossReference | anchor | keyword | returnType | hyperlink =>
    true
  | document | nameAndBody | body | memberRow | parameter | list | description => false

namespace Key

theorem ofMember_eq_nothing_iff (last : Option Run) (e : Element) :
    ofMember last (e.attr? "name") = nothing ↔ e.isKindless = true := by
  unfold Element.isKindless ofMember
  cases hname : e.attr? "name" with
  | none =>
    have hkind : e.kind? = none := by rw [Element.kind?, hname, Option.bind_none]
    simp [hkind]
  | some raw =>
    have hrun : Run.of? raw = e.kind?.map (⟨·, e.isMarked⟩) := by
      rw [← e.run?_eq, Element.run?, hname, Option.bind_some]
    dsimp only
    rw [hrun]
    cases hkind : e.kind? with
    | none => simp
    | some kind =>
      cases kind with
      | method => cases e.isMarked <;> simp
      | type | property | field | event | scope => simp

theorem isClosed_content_of_isMember {key : Key} (h : key.isMember = true) :
    key.rule.content.isClosed = true ↔ key = nothing := by
  cases key with
  | type | nothing => decide
  | field first | property first | method first | constructor first | event first =>
    cases first <;> decide
  | _ => cases h

structure Reaches (key : Key) (r : Resolver) (e : Element) : Prop where
  document_iff : key.rule.content = .document ↔ e.name = "doc"
  isClosed_eq : key.rule.content.isClosed = e.isClosed r

variable {r : Resolver} {e : Element}

theorem reaches_of_member (hm : e.name = "member") (hh : r.hides e = false) (last : Option Run) :
    (ofMember last (e.attr? "name")).Reaches r e := by
  have hmember := isMember_ofMember last (e.attr? "name")
  refine ⟨?_, ?_⟩
  · have hcontent := content_of_isMember hmember
    rw [hm]
    refine iff_of_false ?_ (by decide)
    intro hdocument
    rw [hdocument] at hcontent
    exact absurd hcontent (by decide)
  · rw [Element.isClosed, if_pos hm, hh, Bool.false_or, Bool.eq_iff_iff,
      isClosed_content_of_isMember hmember, ofMember_eq_nothing_iff]

theorem reaches_of_see (hs : e.name = "see") : (ofSee e).Reaches r e := by
  have hclosed : ∀ c ∈ [Content.crossReference, .anchor, .keyword],
      c ≠ .document ∧ c.isClosed = true := by decide
  obtain ⟨hdocument, hclosed⟩ := hclosed _ (content_ofSee e)
  have hknown : e.isUnknown = false := by
    rw [Element.isUnknown, hs]
    rfl
  have hm : ("see" : Text) ≠ "member" := by decide
  have hr : ("see" : Text) ≠ "remarks" := by decide
  refine ⟨?_, ?_⟩
  · rw [hs]
    exact iff_of_false hdocument (by decide)
  · rw [Element.isClosed, hknown, hs, if_neg hm, if_neg hr, hclosed]
    decide

theorem reaches_of_remarks (hr : e.name = "remarks") :
    Reaches (if e.textContent.isEmpty then nameRemarks else remarks) r e := by
  have hm : ("remarks" : Text) ≠ "member" := by decide
  have hclosed : e.isClosed r = e.textContent.isEmpty := by
    rw [Element.isClosed, hr, if_neg hm, if_pos rfl]
  refine ⟨?_, ?_⟩
  · rw [hr]
    cases e.textContent.isEmpty <;> decide
  · rw [hclosed]
    cases e.textContent.isEmpty <;> rfl

theorem reaches_of? {s : Siblings} {ctx : Context} {key : Key} (h : of? s ctx e = some key)
    (hh : ¬ (e.name = "member" ∧ ctx.isHidden e = true)) : key.Reaches ctx.resolver e := by
  by_cases hm : e.name = "member"
  · have hshown : ctx.resolver.hides e = false := by
      rw [← Bool.not_eq_true, Resolver.hides_eq]
      exact fun h => hh ⟨hm, h⟩
    rw [of?, if_pos hm, Option.some.injEq] at h
    exact h ▸ reaches_of_member hm hshown s.last
  · by_cases hs : e.name = "see"
    · rw [of?, if_neg hm, if_pos hs, Option.some.injEq] at h
      exact h ▸ reaches_of_see hs
    · by_cases hr : e.name = "remarks"
      · rw [of?_remarks hr, Option.some.injEq] at h
        exact h ▸ reaches_of_remarks hr
      · obtain ⟨entry, hmem, hname, hcontent⟩ := content_of? h hm hs hr
        have htable : ∀ entry ∈ tags, entry.1 ≠ "remarks" →
            (entry.2.rule.content = .document ↔ entry.1.toList = ("doc" : Text)) ∧
              entry.2.rule.content.isClosed = Element.closedTags.contains entry.1.toList := by
          decide +kernel
        have hremarks : entry.1 ≠ "remarks" := by
          rintro h
          exact hr (by rw [← hname, h])
        have hknown : e.isUnknown = false := by
          rw [← Bool.not_eq_true, ← Element.key_eq_none_iff s ctx, h]
          exact Option.some_ne_none key
        obtain ⟨hdocument, hclosed⟩ := htable entry hmem hremarks
        rw [hcontent, hname] at hdocument hclosed
        refine ⟨hdocument, ?_⟩
        rw [Element.isClosed, if_neg hm, if_neg hr, hknown, Bool.false_or, hclosed]

end Key

namespace Outcome

variable {α β : Type} {us vs : List UnknownTag}

structure Warns (us : List UnknownTag) (x : Outcome α) : Prop where
  warnings_eq : x.warnings = us
  ends : ∃ a, x.result = .ok a

theorem warns_ok (a : α) : Warns [] (ok a) :=
  ⟨rfl, a, rfl⟩

theorem warns_bind {x : Outcome α} {next : α → Outcome β} (hx : Warns us x)
    (hn : ∀ a, Warns vs (next a)) : Warns (us ++ vs) (x >>= next) := by
  obtain ⟨hus, a, ha⟩ := hx
  obtain ⟨hvs, b, hb⟩ := hn a
  rw [bind_result_ok ha]
  exact ⟨by rw [withWarnings, hus, hvs], b, hb⟩

theorem warns_map {x : Outcome α} (f : α → β) (hx : Warns us x) :
    Warns us (x >>= fun a => ok (f a)) := by
  have := warns_bind hx fun a => warns_ok (f a)
  rwa [List.append_nil] at this

end Outcome

open Outcome

structure Context.Warning (r : Resolver) (ctx : Context) : Prop where
  policy_eq : ctx.options.policy = .warn
  resolver_eq : ctx.resolver = r

theorem Context.Warning.under {r : Resolver} {ctx : Context} (h : ctx.Warning r) (key : Key)
    (e : Element) : (ctx.under key e).Warning r := by
  unfold Context.under
  split
  · exact ⟨h.policy_eq, h.resolver_eq⟩
  · exact h

theorem Context.Warning.warns_unknown {r : Resolver} {ctx : Context} (h : ctx.Warning r)
    (tag : StartTag) : Warns [⟨tag.name, tag.position⟩] (ctx.unknown tag) := by
  unfold Context.unknown
  rw [h.policy_eq]
  exact ⟨rfl, [], rfl⟩

structure Parts.Warn (r : Resolver) (parts : Parts) (body assembly members : List UnknownTag) :
    Prop where
  body : ∀ ctx : Context, ctx.Warning r → Warns body (parts.body ctx)
  assembly : ∀ ctx : Context, ctx.Warning r → Warns assembly (parts.assembly ctx)
  members : ∀ ctx : Context, ctx.Warning r → Warns members (parts.members ctx)

theorem Content.warns_values {r : Resolver} {parts : Parts} {us as ms : List UnknownTag}
    (hp : parts.Warn r us as ms) (e : Element) {ctx : Context} (h : ctx.Warning r)
    (content : Content) : Warns
      (if content = .document then as ++ ms else if content.isClosed then [] else us)
      (content.values e parts ctx) := by
  have hbody := hp.body ctx h
  cases content with
  | document =>
    have hin : ({ ctx with assembly := documentName e } : Context).Warning r :=
      ⟨h.policy_eq, h.resolver_eq⟩
    apply warns_bind (hp.assembly _ hin)
    intro assembly
    exact warns_map _ (hp.members _ hin)
  | nameAndBody => exact warns_map _ hbody
  | body => exact warns_map _ hbody
  | memberRow => exact warns_map _ hbody
  | parameter => exact warns_map _ hbody
  | list => exact warns_map _ hbody
  | description => exact warns_map _ hbody
  | nothing | memberName | codeBlock | crossReference | anchor | keyword | returnType | hyperlink =>
    exact warns_ok _

namespace Node

structure Warned (r : Resolver) (n : Node) : Prop where
  render : ∀ s (ctx : Context), ctx.Warning r →
    Warns (n.element?.toList.flatMap (·.reports r)) (n.render s ctx)
  members : ∀ ctx : Context, ctx.Warning r →
    Warns ((n.element?.toList.flatMap (·.childrenNamed "member")).flatMap (·.reports r))
      (renderMembers ctx n)

section

variable {r : Resolver} {nodes : List Node}

theorem flatMap_element?_cons {β : Type} (f : Element → List β) (n : Node) (nodes : List Node) :
    ((n :: nodes).filterMap element?).flatMap f =
      n.element?.toList.flatMap f ++ (nodes.filterMap element?).flatMap f := by
  cases n with
  | text => rfl
  | element tag children =>
    rw [elements_cons, List.flatMap_cons]
    congr 1
    exact (List.append_nil _).symm

theorem warns_renderAll (hs : ∀ n ∈ nodes, n.Warned r) (s : Siblings) {ctx : Context}
    (h : ctx.Warning r) :
    Warns ((nodes.filterMap element?).flatMap (·.reports r)) (renderAll s ctx nodes) := by
  induction nodes generalizing s with
  | nil => exact warns_ok _
  | cons n nodes ih =>
    rw [renderAll, flatMap_element?_cons]
    apply warns_bind ((hs n List.mem_cons_self).render s ctx h)
    intro here
    exact warns_map _ (ih (fun m hm => hs m (List.mem_cons_of_mem _ hm)) (s.past ctx n))

theorem warns_renderMemberList (hs : ∀ n ∈ nodes, n.Warned r) (s : Siblings) {ctx : Context}
    (h : ctx.Warning r) :
    Warns (((nodes.filterMap element?).filter (·.name = ("member" : Text))).flatMap (·.reports r))
      (renderMemberList s ctx nodes) := by
  rw [renderMemberList_eq, ← filter_elements]
  exact warns_renderAll (fun n hn => hs n (List.mem_filter.1 hn).1) s h

theorem warns_renderAssembly (hs : ∀ n ∈ nodes, n.Warned r) {ctx : Context} (h : ctx.Warning r) :
    Warns (((nodes.filterMap element?).find? (·.name = ("assembly" : Text))).toList.flatMap
      (·.reports r)) (renderAssembly ctx nodes) := by
  rw [renderAssembly_eq, ← find?_elements]
  cases hf : nodes.find? (isNamed "assembly") with
  | none => exact warns_ok _
  | some n => exact (hs n (List.mem_of_find?_eq_some hf)).render _ ctx h

theorem warns_renderFirstMembers (hs : ∀ n ∈ nodes, n.Warned r) {ctx : Context}
    (h : ctx.Warning r) :
    Warns ((((nodes.filterMap element?).find? (·.name = ("members" : Text))).toList.flatMap
      (·.childrenNamed "member")).flatMap (·.reports r)) (renderFirstMembers ctx nodes) := by
  rw [renderFirstMembers_eq, ← find?_elements]
  cases hf : nodes.find? (isNamed "members") with
  | none => exact warns_ok _
  | some n => exact (hs n (List.mem_of_find?_eq_some hf)).members ctx h

end

end Node

namespace Element

variable {r : Resolver} {e : Element}

theorem reports_of_hidden (hm : e.name = "member") (hh : r.hides e = true) : e.reports r = [] := by
  have hdoc : e.name ≠ "doc" := by
    rw [hm]
    decide
  rw [reports_eq, map_snd_passes, if_neg hdoc, isClosed, if_pos hm, hh, isUnknown, hm]
  rfl

theorem reports_of_unknown (h : e.isUnknown = true) : e.reports r = [e.report] := by
  have hdoc : e.name ≠ "doc" := ne_of_isUnknown h (Or.inr (Or.inr (by decide +kernel)))
  have hremarks : e.name ≠ "remarks" := ne_of_isUnknown h (Or.inr (Or.inr (by decide +kernel)))
  have hmember : e.name ≠ "member" := ne_of_isUnknown h (Or.inl rfl)
  rw [reports_eq, map_snd_passes, if_pos h, if_neg hdoc, isClosed, if_neg hmember, if_neg hremarks, h]
  rfl

theorem reports_of_key {s : Siblings} {ctx : Context} {key : Key}
    (h : Key.of? s ctx e = some key) (hh : ¬ (e.name = "member" ∧ ctx.isHidden e = true)) :
    e.reports ctx.resolver =
      if key.rule.content = .document then
        (e.child? "assembly").toList.flatMap (·.reports ctx.resolver) ++
          ((e.child? "members").toList.flatMap (·.childrenNamed "member")).flatMap
            (·.reports ctx.resolver)
      else if key.rule.content.isClosed then [] else e.elements.flatMap (·.reports ctx.resolver) := by
  obtain ⟨hdoc, hclosed⟩ := Key.reaches_of? h hh
  have hknown : ¬ e.isUnknown = true := by
    rw [← Element.key_eq_none_iff s ctx, h]
    exact Option.some_ne_none key
  rw [reports_eq, map_snd_passes, if_neg hknown, List.nil_append, hclosed]
  simp only [hdoc]
  split
  · rw [List.flatMap_append]
  · split <;> rfl

end Element

theorem Node.warned (r : Resolver) (n : Node) : n.Warned r := by
  induction n with
  | text content => exact ⟨fun _ _ _ => warns_ok _, fun _ _ => warns_ok _⟩
  | element tag children hs =>
    let e : Element := ⟨tag, children⟩
    refine ⟨fun s ctx h => ?_, fun ctx h => ?_⟩
    · rw [element?, Option.toList_some, List.flatMap_singleton]
      change Warns (e.reports r) (e.toNode.render s ctx)
      rw [Element.render_toNode]
      by_cases hh : e.name = "member" ∧ ctx.isHidden e = true
      · have hhidden : r.hides e = true := by rw [← h.resolver_eq, Resolver.hides_eq, hh.2]
        rw [if_pos hh, Element.reports_of_hidden hh.1 hhidden]
        exact warns_ok _
      · rw [if_neg hh]
        cases hk : Key.of? s ctx e with
        | none =>
          rw [Element.reports_of_unknown ((Element.key_eq_none_iff s ctx).1 hk)]
          exact h.warns_unknown tag
        | some key =>
          have hreports := Element.reports_of_key hk hh
          rw [h.resolver_eq] at hreports
          rw [hreports]
          apply warns_map
          apply Content.warns_values _ e (h.under key e)
          exact ⟨fun ctx h => warns_renderAll hs _ h, fun ctx h => warns_renderAssembly hs h,
            fun ctx h => warns_renderFirstMembers hs h⟩
    · rw [element?, Option.toList_some, List.flatMap_singleton]
      exact warns_renderMemberList hs _ h

theorem Document.warns_render (layout : Layout) (r : Resolver) (d : Document) :
    Warns (d.root.reports r) (d.render ⟨.warn, layout⟩ r) := by
  let ctx : Context := ⟨[], ⟨.warn, layout⟩, r, d.members, none⟩
  have hroot := (d.root.toNode.warned r).render .start ctx ⟨rfl, rfl⟩
  rw [Element.element?_toNode, Option.toList_some, List.flatMap_singleton] at hroot
  exact warns_map _ hroot

/-- A run that warns reports every unknown tag that it comes to, each once and none besides. -/
theorem Document.reachable_unknown_tags_reported (layout : Layout) (r : Resolver) (d : Document) :
    ∃ found : List (Address × Element),
      (d.render ⟨.warn, layout⟩ r).warnings = found.map (·.2.report) ∧
      (d.render ⟨.warn, layout⟩ r).warnings.map UnknownTag.message = found.map (fun x =>
        ("Unknown element type \"" ++ x.2.name ++ "\" on " ++ x.2.tag.position.toText : Text)) ∧
      (∀ a e, (a, e) ∈ found ↔ Element.Reachable r d.root a e ∧ e.isUnknown) ∧
      found.Pairwise (fun x y => d.root.WalkedBefore x.1 y.1) ∧ (found.map (·.1)).Nodup := by
  let found := (d.root.walk r).filter (·.2.isUnknown)
  have hordered : found.Pairwise fun x y => d.root.WalkedBefore x.1 y.1 :=
    (Element.pairwise_walk r d.root).filter _
  have hwarnings := (d.warns_render layout r).warnings_eq
  refine ⟨found, hwarnings, ?_, ?_, hordered, ?_⟩
  · rw [hwarnings, Element.reports, List.map_map]
    rfl
  · intro a e
    rw [List.mem_filter, Element.mem_walk_iff]
  · exact List.pairwise_map.2 (hordered.imp fun h => h.ne)

end Docmark
