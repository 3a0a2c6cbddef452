import Docmark.Proofs.Blanks
import Docmark.Proofs.Headings
import Docmark.Proofs.Warned

/-!
What of a tree is seen on the page. A link or a table is, although there is no text in the element;
remarks that hold nothing else give way to the name of their member all the same.
-/

namespace Docmark

theorem Outcome.of_bind_result_ok {α β : Type} {x : Outcome α} {f : α → Outcome β} {b : β}
    (h : (x >>= f).result = .ok b) : ∃ a, x.result = .ok a ∧ (f a).result = .ok b := by
  cases hx : x.result with
  | error u =>
    rw [bind_result_error hx] at h
    cases h
  | ok a =>
    rw [bind_result_ok hx] at h
    exact ⟨a, rfl, h⟩

namespace Text

theorem Rewraps.allBlank_eq {s t : Text} (h : Rewraps s t) : allBlank s = allBlank t := by
  induction h with
  | nil => rfl
  | char hc => simp [allBlank, hc]
  | run _ _ ha hb _ ih => rw [allBlank_append, allBlank_append, ha, hb, ih]

end Text

namespace Template

def hasInk (template : Text) : Bool :=
  (pieces template).any fun
    | .char c => !isBlank c
    | .slot _ => false

def slots (template : Text) : List Nat :=
  (pieces template).filterMap fun
    | .char _ => none
    | .slot index => some index

end Template

theorem allBlank_fill (template : Text) (values : List Text) :
    Text.allBlank (fill template values) = (!Template.hasInk template &&
      (Template.slots template).all fun index => Text.allBlank ((Piece.slot index).value values)) := by
  rw [fill, Template.hasInk, Template.slots]
  induction Template.pieces template with
  | nil => rfl
  | cons p pieces ih =>
    rw [List.flatMap_cons, Text.allBlank_append, ih]
    cases p with
    | char c => cases hc : isBlank c <;> simp [Piece.value, Text.allBlank, hc]
    | slot index => simp [Bool.and_left_comm]

def Context.bareName (ctx : Context) : Text :=
  (ctx.memberName?.map simpleName).getD []

namespace Key

def shows (ctx : Context) (e : Element) (below : Bool) : Key → Bool
  | name | nothing => false
  | assembly | summary | fieldSummary | remarks | para | br => below
  | nameRemarks => !Text.allBlank ctx.bareName
  | list | description => below || !Text.allBlank (displayName ctx.assembly e)
  | _ => true

end Key

namespace Node

mutual

def shows (ctx : Context) : Node → Bool
  | .text content => !Text.allBlank content
  | .element tag children =>
    let e : Element := ⟨tag, children⟩
    if tag.name = "member" ∧ ctx.isHidden e then false
    else (Key.of? .start ctx e).any (Key.shows ctx e (showsAny ctx children))

def showsAny (ctx : Context) : List Node → Bool
  | [] => false
  | node :: nodes => shows ctx node || showsAny ctx nodes

end

end Node

namespace Key

variable {key : Key} {e : Element} {parts : Parts} {ctx : Context} {below : Bool} {out : Text}

theorem shows_of_isMember (h : key.isMember = true) (ctx : Context) (below : Bool) :
    key.shows ctx e below = decide (key ≠ nothing) := by
  cases key with
  | type | field | property | method | constructor | event | nothing => rfl
  | _ => cases h

theorem any_shows_of? (s other : Siblings) :
    (of? s ctx e).any (shows ctx e below) = (of? other ctx e).any (shows ctx e below) := by
  -- The siblings decide whether the heading of a run is there, and what has such a heading is seen
  -- without it as well.
  by_cases hm : e.name = "member"
  · rw [of?, of?, if_pos hm, if_pos hm, Option.any_some, Option.any_some,
      shows_of_isMember (isMember_ofMember _ _), shows_of_isMember (isMember_ofMember _ _)]
    simp only [ne_eq, ofMember_eq_nothing_iff]
  · by_cases hs : e.name = "see"
    · rw [of?, of?, if_neg hm, if_neg hm, if_pos hs, if_pos hs]
    · rw [of?, of?, if_neg hm, if_neg hm, if_neg hs, if_neg hs]
      split
      · rfl
      · rfl
      · rfl
      · simp only [Option.any_some]
        split <;> split <;> rfl
      · rfl
      · rfl

def quietSlots? : Key → Option (List Nat)
  | name | nothing => some []
  | summary | fieldSummary | nameRemarks | remarks | para | br => some [0]
  | assembly => some [1]
  | list | description => some [0, 1]
  | _ => none

theorem ink_rule (key : Key) : Template.hasInk key.rule.template = key.quietSlots?.isNone ∧
    ∀ slots ∈ key.quietSlots?, Template.slots key.rule.template = slots := by
  cases key with
  | field first | property first | method first | constructor first | event first | seeAlso first
  | typeParam first | param first => cases first <;> decide +kernel
  | _ => decide +kernel

theorem allBlank_fill_rule (key : Key) (values : List Text) :
    Text.allBlank (fill key.rule.template values) = key.quietSlots?.any fun slots =>
      slots.all fun index => Text.allBlank ((Piece.slot index).value values) := by
  obtain ⟨hink, hslots⟩ := ink_rule key
  rw [allBlank_fill, hink]
  cases hquiet : key.quietSlots? with
  | none => rfl
  | some slots =>
    rw [hslots slots hquiet]
    rfl

theorem allBlank_captioned (opening caption : Text) :
    Text.allBlank (Content.captioned opening caption) = Text.allBlank caption := by
  have hstar : isBlank '*' = false := rfl
  rw [Content.captioned]
  split
  · rfl
  · next hc =>
    rw [Bool.eq_false_of_not_eq_true hc]
    simp [Content.bold, Text.allBlank, hstar]

theorem allBlank_of_apply
    (hbody : ∀ content, (parts.body ctx).result = .ok content → Text.allBlank content = !below)
    (h : (key.rule.apply e parts ctx).result = .ok out) :
    Text.allBlank out = !key.shows ctx e below := by
  obtain ⟨values, hvalues, hout⟩ := Outcome.of_bind_result_ok h
  cases hout
  rw [allBlank_fill_rule]
  cases key with
  | name | nothing => rfl
  | assembly | summary | fieldSummary | remarks | para | br =>
    obtain ⟨content, hcontent, hv⟩ := Outcome.of_bind_result_ok hvalues
    cases hv
    simp [quietSlots?, Piece.value, hbody content hcontent, shows]
  | nameRemarks =>
    cases hvalues
    simp [quietSlots?, Piece.value, shows, Context.bareName]
  | list | description =>
    obtain ⟨content, hcontent, hv⟩ := Outcome.of_bind_result_ok hvalues
    cases hv
    simp [quietSlots?, Piece.value, hbody content hcontent, shows, allBlank_captioned, Bool.and_comm]
  | _ => rfl

theorem shows_under (key : Key) (ctx : Context) (e : Element) (nodes : List Node) :
    key.shows (ctx.under key e) e (Node.showsAny (ctx.under key e) nodes) =
      key.shows ctx e (Node.showsAny ctx nodes) := by
  rw [Context.under]
  split
  · next hm => rw [shows_of_isMember hm, shows_of_isMember hm]
  · rfl

end Key

theorem Context.eq_nil_of_unknown (ctx : Context) {tag : StartTag} {out : Text}
    (h : (ctx.unknown tag).result = .ok out) : out = [] := by
  unfold unknown at h
  cases hp : ctx.options.policy with
  | error =>
    rw [hp] at h
    cases h
  | warn =>
    rw [hp] at h
    cases h
    rfl
  | accept =>
    rw [hp] at h
    cases h
    rfl

theorem Element.shows_toNode (ctx : Context) (e : Element) : e.toNode.shows ctx =
    if e.name = "member" ∧ ctx.isHidden e then false
    else (Key.of? .start ctx e).any (Key.shows ctx e (Node.showsAny ctx e.children)) := by
  rw [toNode, Node.shows]
  rfl

namespace Node

theorem allBlank_renderAll {nodes : List Node} {ctx : Context}
    (h : ∀ n ∈ nodes, ∀ s out, (n.render s ctx).result = .ok out → Text.allBlank out = !n.shows ctx)
    {s : Siblings} {out : Text} (hout : (renderAll s ctx nodes).result = .ok out) :
    Text.allBlank out = !showsAny ctx nodes := by
  induction nodes generalizing s out with
  | nil =>
    cases hout
    rfl
  | cons n nodes ih =>
    rw [renderAll] at hout
    obtain ⟨here, hhere, hrest⟩ := Outcome.of_bind_result_ok hout
    obtain ⟨more, hmore, hv⟩ := Outcome.of_bind_result_ok hrest
    cases hv
    have hn := h n List.mem_cons_self s here hhere
    have hnodes := ih (fun m hm => h m (List.mem_cons_of_mem n hm)) hmore
    rw [Text.allBlank_append, hn, hnodes, showsAny, Bool.not_or]

theorem allBlank_render (n : Node) (s : Siblings) (ctx : Context) {out : Text}
    (h : (n.render s ctx).result = .ok out) : Text.allBlank out = !n.shows ctx := by
  induction n generalizing s ctx out with
  | text content =>
    rw [render] at h
    cases h
    rw [shows, Bool.not_not, ← (Text.rewraps_collapse content).allBlank_eq]
  | element tag children ih =>
    let e : Element := ⟨tag, children⟩
    change (e.toNode.render s ctx).result = .ok out at h
    change Text.allBlank out = !e.toNode.shows ctx
    rw [Element.render_toNode] at h
    rw [Element.shows_toNode]
    by_cases hm : e.name = "member" ∧ ctx.isHidden e = true
    · rw [if_pos hm] at h ⊢
      cases h
      rfl
    · rw [if_neg hm] at h ⊢
      rw [Key.any_shows_of? .start s]
      cases hkey : Key.of? s ctx e with
      | none =>
        rw [hkey] at h
        rw [ctx.eq_nil_of_unknown h]
        rfl
      | some key =>
        rw [hkey] at h
        have hbody (content : Text) (hc : (e.parts.body (ctx.under key e)).result = .ok content) :
            Text.allBlank content = !showsAny (ctx.under key e) children :=
          allBlank_renderAll (fun n hn s out => ih n hn s _) hc
        rw [Option.any_some, Key.allBlank_of_apply hbody h, Key.shows_under]

end Node

theorem fill_around {opening ending : Text} (ho : '{' ∉ opening) (he : '{' ∉ ending)
    (content : Text) : fill (opening ++ ("{0}" ++ ending)) [content] =
      opening ++ (content ++ ending) := by
  have hdigit : ∀ c ∈ ("0" : Text), c.isDigit = true := Text.forall_mem_of_all (by decide)
  have hslot : fill ("{0}" ++ ending) [content] = content ++ fill ending [content] :=
    fill_slot (List.cons_ne_nil _ _) hdigit (by decide) ending [content]
  have hend := fill_append he [] [content]
  rw [List.append_nil] at hend
  rw [fill_append ho, hslot, hend, fill, Template.pieces, List.flatMap_nil, List.append_nil]

theorem Element.result_render_remarks {e : Element} (he : e.name = "remarks") (s : Siblings)
    (ctx : Context) : (e.toNode.render s ctx).result =
      if e.textContent = [] then .ok ctx.bareName
      else (e.parts.body ctx).result.map fun content => "\n" ++ (content ++ "\n") := by
  have hshown : ¬ (e.name = "member" ∧ ctx.isHidden e = true) := by
    rw [he]
    exact fun h => absurd h.1 (by decide)
  rw [render_toNode, if_neg hshown, Key.of?_remarks he]
  simp only [List.isEmpty_iff]
  split
  · have hfill : fill "{0}" [ctx.bareName] = [] ++ (ctx.bareName ++ []) :=
      @fill_around [] [] List.not_mem_nil List.not_mem_nil ctx.bareName
    simp only [List.nil_append, List.append_nil] at hfill
    exact congrArg Except.ok hfill
  · have hfill (content : Text) : fill ("\n" ++ ("{0}" ++ "\n")) [content] =
        "\n" ++ (content ++ "\n") := fill_around (by decide) (by decide) content
    change (Key.remarks.rule.apply e e.parts ctx).result = _
    have hvalues : Key.remarks.rule.content.values e e.parts ctx =
        (e.parts.body ctx >>= fun content => Outcome.ok [content]) := rfl
    rw [Rule.apply, hvalues]
    simp only [Outcome.pure_eq_ok, Outcome.result_map]
    cases (e.parts.body ctx).result with
    | error u => rfl
    | ok content => exact congrArg Except.ok (hfill content)

/-- Remarks in which there is no text at all give way to the name of their member, so they lose what is
seen of them without any text. -/
theorem remarks_keep_content_iff {e : Element} (he : e.name = "remarks") {ctx : Context}
    {content : Text} (hc : (e.parts.body ctx).result = .ok content) (s : Siblings) :
    ∃ out, (e.toNode.render s ctx).result = .ok out ∧
      out = (if e.textContent = [] then ctx.bareName else "\n" ++ (content ++ "\n")) ∧
      ((Text.allBlank content = false → content <:+: out) ↔
        (Node.showsAny ctx e.children = true →
          e.textContent ≠ [] ∨ content <:+: ctx.bareName)) := by
  have hseen : Text.allBlank content = !Node.showsAny ctx e.children :=
    Node.allBlank_renderAll (fun n _ s out => n.allBlank_render s ctx) hc
  have hrender := Element.result_render_remarks he s ctx
  rw [hseen, Bool.not_eq_false']
  by_cases ht : e.textContent = []
  · rw [if_pos ht] at hrender ⊢
    refine ⟨ctx.bareName, hrender, rfl, ?_⟩
    simp only [ht, ne_eq, not_true_eq_false, false_or]
  · rw [if_neg ht, hc] at hrender
    refine ⟨_, hrender, (if_neg ht).symm, ?_⟩
    have hkept : content <:+: "\n" ++ (content ++ "\n") := ⟨"\n", "\n", List.append_assoc _ _ _⟩
    exact iff_of_true (fun _ => hkept) fun _ => .inl ht

theorem remarks_keep_content_iff_link :
    let see : Element := ⟨⟨"see", [("cref", "T:Foo.Item")], ⟨4, 9⟩⟩, []⟩
    let remarks : Element := ⟨⟨"remarks", [], ⟨3, 7⟩⟩, [see.toNode]⟩
    let member : Element := ⟨⟨"member", [("name", "T:Foo.Bar")], ⟨2, 5⟩⟩, [remarks.toNode]⟩
    let ctx : Context := ⟨"Foo", ⟨.error, .perAssembly⟩, .unknown, [], some member⟩
    let link : Text := "[Item](../Foo/#item)"
    remarks.name = "remarks" ∧ (remarks.parts.body ctx).result = .ok link ∧
      Text.allBlank link = false ∧ remarks.textContent = [] ∧
      Node.showsAny ctx remarks.children = true ∧
      ∃ out, (remarks.toNode.render (.under member) ctx).result = .ok out ∧ out = "Bar" ∧
        ¬ link <:+: out := by
  intro see remarks member ctx link
  have hbody : (remarks.parts.body ctx).result = .ok link := by decide +kernel
  obtain ⟨out, hrender, hout, hiff⟩ := remarks_keep_content_iff rfl hbody (.under member)
  have hname : ctx.bareName = "Bar" := by decide +kernel
  have hshows : Node.showsAny ctx remarks.children = true := by decide +kernel
  refine ⟨rfl, hbody, by decide +kernel, rfl, hshows, out, hrender, hout.trans hname, ?_⟩
  intro hkept
  rcases hiff.1 (fun _ => hkept) hshows with htext | hin
  · exact htext rfl
  · rw [hname] at hin
    exact absurd hin (by decide)

end Docmark
