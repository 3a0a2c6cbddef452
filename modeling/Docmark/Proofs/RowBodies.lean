import Mathlib.Data.List.Forall2
import Docmark.Proofs.CodeBlocks
import Docmark.Proofs.Remarks

/-!
A renderer that tidies up the descriptions in rows in its own way, and when its pages are the same.
-/

namespace Docmark

namespace Outcome

variable {α β : Type}

inductive Corresponds (r : α → α → Prop) : Outcome α → Outcome α → Prop
  | ok {warnings : List UnknownTag} {a b : α} (h : r a b) :
    Corresponds r ⟨warnings, .ok a⟩ ⟨warnings, .ok b⟩
  | error (warnings : List UnknownTag) (u : UnknownTag) :
    Corresponds r ⟨warnings, .error u⟩ ⟨warnings, .error u⟩

namespace Corresponds

variable {r : α → α → Prop} {q : β → β → Prop} {x y : Outcome α}

theorem refl (h : ∀ a, r a a) (x : Outcome α) : Corresponds r x x := by
  obtain ⟨warnings, result⟩ := x
  cases result with
  | error u => exact .error warnings u
  | ok a => exact .ok (h a)

theorem bind {f g : α → Outcome β} (h : Corresponds r x y)
    (hf : ∀ a b, r a b → Corresponds q (f a) (g b)) : Corresponds q (x >>= f) (y >>= g) := by
  cases h with
  | error warnings u => exact .error warnings u
  | @ok warnings a b hab =>
    have hnext := hf a b hab
    rw [bind_result_ok rfl, bind_result_ok rfl]
    generalize f a = left, g b = right at hnext ⊢
    cases hnext with
    | error more u => exact .error (warnings ++ more) u
    | ok hq => exact .ok hq

theorem eq (h : Corresponds Eq x y) : x = y := by
  cases h with
  | error warnings u => rfl
  | ok hab => rw [hab]

end Corresponds

end Outcome

namespace Content

def rowBodyWith (tidy : Text → Text) (raw body : Text) : Text :=
  match MemberId.parse? raw with
  | none => body
  | some id => if id.kind = .field then body else tidy (Text.trimEnd isBlank body)

def valuesWith (tidy : Text → Text) (e : Element) (parts : Parts) (ctx : Context) :
    Content → Outcome (List Text)
  | memberRow => do
    let raw := (e.attr? "name").getD []
    return [displayName ctx.assembly e, rowBodyWith tidy raw (← parts.body ctx), rowType ctx raw]
  | content => content.values e parts ctx

end Content

def Rule.applyWith (tidy : Text → Text) (rule : Rule) (e : Element) (parts : Parts) (ctx : Context) :
    Outcome Text := do
  return fill rule.template (← rule.content.valuesWith tidy e parts ctx)

namespace Node

mutual

def renderWith (tidy : Text → Text) (s : Siblings) (ctx : Context) : Node → Outcome Text
  | .text content => return Text.collapse content
  | .element tag children =>
    let e : Element := ⟨tag, children⟩
    if tag.name = "member" ∧ ctx.isHidden e then return []
    else
      match Key.of? s ctx e with
      | none => ctx.unknown tag
      | some key =>
        let parts : Parts := {
          body := fun ctx => renderAllWith tidy (Siblings.under e) ctx children
          assembly := fun ctx => renderAssemblyWith tidy ctx children
          members := fun ctx => renderFirstMembersWith tidy ctx children }
        key.rule.applyWith tidy e parts (ctx.under key e)

def renderAllWith (tidy : Text → Text) (s : Siblings) (ctx : Context) : List Node → Outcome Text
  | [] => return []
  | node :: nodes => do
    let here ← renderWith tidy s ctx node
    return here ++ (← renderAllWith tidy (s.past ctx node) ctx nodes)

def renderAssemblyWith (tidy : Text → Text) (ctx : Context) : List Node → Outcome Text
  | [] => return []
  | node :: nodes =>
    if node.isNamed "assembly" then renderWith tidy Siblings.start ctx node
    else renderAssemblyWith tidy ctx nodes

def renderFirstMembersWith (tidy : Text → Text) (ctx : Context) : List Node → Outcome Text
  | [] => return []
  | node :: nodes =>
    if node.isNamed "members" then renderMembersWith tidy ctx node
    else renderFirstMembersWith tidy ctx nodes

def renderMembersWith (tidy : Text → Text) (ctx : Context) : Node → Outcome Text
  | .text _ => return []
  | .element tag children => renderMemberListWith tidy (Siblings.under ⟨tag, children⟩) ctx children

def renderMemberListWith (tidy : Text → Text) (s : Siblings) (ctx : Context) : List Node → Outcome Text
  | [] => return []
  | node :: nodes =>
    if node.isNamed "member" then do
      let here ← renderWith tidy s ctx node
      return here ++ (← renderMemberListWith tidy (s.past ctx node) ctx nodes)
    else renderMemberListWith tidy s ctx nodes

end

end Node

def Document.renderWith (tidy : Text → Text) (options : Options) (resolver : Resolver) (d : Document) :
    Outcome Text := do
  let ctx : Context := ⟨[], options, resolver, d.members, none⟩
  return Text.squeezeBreaks (← d.root.toNode.renderWith tidy Siblings.start ctx)

structure Carries (tidy : Text → Text) (r : Text → Text → Prop) : Prop where
  refl : ∀ t, r t t
  append : ∀ {s t s' t'}, r s t → r s' t' → r (s ++ s') (t ++ t')
  allBlank_eq : ∀ {s t}, r s t → Text.allBlank s = Text.allBlank t
  row : ∀ {s t}, r s t → r (tidy (Text.trimEnd isBlank s)) (Text.squeezeBreaks (Text.trimEnd isBlank t))

structure Parts.Correspond (r : Text → Text → Prop) (p q : Parts) : Prop where
  body : ∀ ctx, Outcome.Corresponds r (p.body ctx) (q.body ctx)
  assembly : ∀ ctx, Outcome.Corresponds r (p.assembly ctx) (q.assembly ctx)
  members : ∀ ctx, Outcome.Corresponds r (p.members ctx) (q.members ctx)

def Node.Corresponds (tidy : Text → Text) (r : Text → Text → Prop) (n : Node) : Prop :=
  (∀ s ctx, Outcome.Corresponds r (n.renderWith tidy s ctx) (n.render s ctx)) ∧
    ∀ ctx, Outcome.Corresponds r (Node.renderMembersWith tidy ctx n) (Node.renderMembers ctx n)

namespace Carries

open Outcome

variable {tidy : Text → Text} {r : Text → Text → Prop} (h : Carries tidy r)

include h

theorem fill {values others : List Text} (hv : List.Forall₂ r values others) (template : Text) :
    r (fill template values) (Docmark.fill template others) := by
  have hslot (index : Nat) : r (values.getD index []) (others.getD index []) := by
    induction hv generalizing index with
    | nil => exact h.refl []
    | cons hv _ ih =>
      cases index with
      | zero => exact hv
      | succ index => exact ih index
  rw [Docmark.fill, Docmark.fill]
  induction Template.pieces template with
  | nil => exact h.refl []
  | cons piece pieces ih =>
    refine h.append ?_ ih
    cases piece with
    | char c => exact h.refl [c]
    | slot index =>
      rw [Piece.value, Piece.value]
      split
      · exact hslot index
      · exact h.refl []

theorem rowBody {s t : Text} (hb : r s t) (raw : Text) :
    r (Content.rowBodyWith tidy raw s) (Content.rowBody raw t) := by
  rw [Content.rowBodyWith, Content.rowBody]
  cases MemberId.parse? raw with
  | none => exact hb
  | some id =>
    dsimp only
    by_cases hfield : id.kind = .field
    · rwa [if_pos hfield, if_pos hfield]
    · rw [if_neg hfield, if_neg hfield]
      exact h.row hb

theorem parameterBody {s t : Text} (hb : r s t) (name : Text) :
    r (Content.parameterBody name s) (Content.parameterBody name t) := by
  rw [Content.parameterBody, Content.parameterBody, h.allBlank_eq hb]
  split
  · exact h.refl _
  · exact hb

theorem values {p q : Parts} (hp : p.Correspond r q) (e : Element) (ctx : Context)
    (content : Content) :
    Corresponds (List.Forall₂ r) (content.valuesWith tidy e p ctx) (content.values e q ctx) := by
  have hbody := hp.body ctx
  have hsame (values : List Text) : List.Forall₂ r values values := List.forall₂_same.2 fun t _ => h.refl t
  have hfilled {f g : Text → List Text} (hf : ∀ s t, r s t → List.Forall₂ r (f s) (g t)) :
      Corresponds (List.Forall₂ r) (p.body ctx >>= fun body => .ok (f body))
        (q.body ctx >>= fun body => .ok (g body)) :=
    hbody.bind fun s t hb => .ok (hf s t hb)
  cases content with
  | document =>
    refine (hp.assembly _).bind fun s t hs => (hp.members _).bind fun s' t' hs' => .ok ?_
    exact .cons (h.refl _) (.cons hs (.cons hs' .nil))
  | nameAndBody | list | description =>
    exact hfilled fun s t hb => .cons (h.refl _) (.cons hb .nil)
  | body => exact hfilled fun s t hb => .cons hb .nil
  | memberRow =>
    exact hfilled fun s t hb => .cons (h.refl _) (.cons (h.rowBody hb _) (.cons (h.refl _) .nil))
  | parameter => exact hfilled fun s t hb => .cons (h.refl _) (.cons (h.parameterBody hb _) .nil)
  | nothing | memberName | codeBlock | crossReference | anchor | keyword | returnType | hyperlink =>
    exact .ok (hsame _)

theorem apply {p q : Parts} (hp : p.Correspond r q) (rule : Rule) (e : Element) (ctx : Context) :
    Corresponds r (rule.applyWith tidy e p ctx) (rule.apply e q ctx) :=
  (h.values hp e ctx rule.content).bind fun _ _ hv => .ok (h.fill hv rule.template)

section

variable {nodes : List Node} (hs : ∀ n ∈ nodes, n.Corresponds tidy r)

include hs

theorem renderAll (s : Siblings) (ctx : Context) :
    Corresponds r (Node.renderAllWith tidy s ctx nodes) (Node.renderAll s ctx nodes) := by
  induction nodes generalizing s with
  | nil => exact .ok (h.refl [])
  | cons n nodes ih =>
    have hrest := ih (fun m hm => hs m (List.mem_cons_of_mem n hm)) (s.past ctx n)
    exact ((hs n List.mem_cons_self).1 s ctx).bind fun _ _ hhere =>
      hrest.bind fun _ _ hmore => .ok (h.append hhere hmore)

theorem renderMemberList (s : Siblings) (ctx : Context) :
    Corresponds r (Node.renderMemberListWith tidy s ctx nodes) (Node.renderMemberList s ctx nodes) := by
  induction nodes generalizing s with
  | nil => exact .ok (h.refl [])
  | cons n nodes ih =>
    have hmore := ih fun m hm => hs m (List.mem_cons_of_mem n hm)
    rw [Node.renderMemberListWith, Node.renderMemberList]
    by_cases hn : n.isNamed "member" = true
    · rw [if_pos hn, if_pos hn]
      exact ((hs n List.mem_cons_self).1 s ctx).bind fun _ _ hhere =>
        (hmore (s.past ctx n)).bind fun _ _ hrest => .ok (h.append hhere hrest)
    · rw [if_neg hn, if_neg hn]
      exact hmore s

theorem renderAssembly (ctx : Context) :
    Corresponds r (Node.renderAssemblyWith tidy ctx nodes) (Node.renderAssembly ctx nodes) := by
  induction nodes with
  | nil => exact .ok (h.refl [])
  | cons n nodes ih =>
    rw [Node.renderAssemblyWith, Node.renderAssembly]
    split
    · exact (hs n List.mem_cons_self).1 _ ctx
    · exact ih fun m hm => hs m (List.mem_cons_of_mem n hm)

theorem renderFirstMembers (ctx : Context) :
    Corresponds r (Node.renderFirstMembersWith tidy ctx nodes) (Node.renderFirstMembers ctx nodes) := by
  induction nodes with
  | nil => exact .ok (h.refl [])
  | cons n nodes ih =>
    rw [Node.renderFirstMembersWith, Node.renderFirstMembers]
    split
    · exact (hs n List.mem_cons_self).2 ctx
    · exact ih fun m hm => hs m (List.mem_cons_of_mem n hm)

end

theorem node (n : Node) : n.Corresponds tidy r := by
  induction n with
  | text content => exact ⟨fun _ _ => .ok (h.refl _), fun _ => .ok (h.refl [])⟩
  | element tag children hs =>
    refine ⟨fun s ctx => ?_, fun ctx => h.renderMemberList hs _ ctx⟩
    rw [Node.renderWith, Node.render]
    dsimp only
    split
    · exact .ok (h.refl [])
    · cases Key.of? s ctx ⟨tag, children⟩ with
      | none => exact .refl h.refl _
      | some key =>
        apply h.apply
        exact ⟨h.renderAll hs _, h.renderAssembly hs, h.renderFirstMembers hs⟩

end Carries

namespace Text

theorem allBlank_squeezeBreaks (t : Text) : allBlank (squeezeBreaks t) = allBlank t := by
  rw [Bool.eq_iff_iff, allBlank, allBlank, List.all_eq_true, List.all_eq_true]
  simp only [mem_squeezeBreaks]

theorem squeezeBreaks_trimEnd (t : Text) :
    squeezeBreaks (trimEnd isBlank t) = trimEnd isBlank (squeezeBreaks t) := by
  obtain ⟨dropped, ht, hdropped⟩ := trimEnd_append isBlank t
  have hlast := getLast?_trimEnd isBlank t
  generalize trimEnd isBlank t = kept at ht hlast ⊢
  have hblank : (squeezeBreaks dropped).all isBlank = true := (allBlank_squeezeBreaks dropped).trans hdropped
  rw [ht]
  rcases List.eq_nil_or_concat' kept with rfl | ⟨front, c, rfl⟩
  · have hnone := trimEnd_append_space hblank []
    rw [List.nil_append] at hnone ⊢
    rw [hnone, squeezeBreaks_nil, trimEnd]
  · -- The last character that is kept is no line feed, so no run is cut through.
    have hc : isBlank c = false := hlast c (List.getLast?_concat ..)
    have hbreak : c ≠ '\n' := by
      rintro rfl
      cases hc
    have hkept : squeezeBreaks (front ++ [c]) = squeezeBreaks front ++ [c] := by
      rw [squeezeBreaks_append hbreak, squeezeBreaks_nil]
    rw [hkept, List.append_assoc, List.singleton_append, squeezeBreaks_append hbreak,
      List.append_cons (squeezeBreaks front) c (squeezeBreaks dropped), trimEnd_append_space hblank,
      trimEnd_concat, if_neg (by rw [hc]; decide)]

end Text

theorem carries_eq : Carries Text.squeezeBreaks Eq where
  refl _ := rfl
  append := by
    rintro s _ s' _ rfl rfl
    rfl
  allBlank_eq := congrArg Text.allBlank
  row h := congrArg (fun t => Text.squeezeBreaks (Text.trimEnd isBlank t)) h

theorem carries_squeezed {tidy : Text → Text}
    (htidy : ∀ t, Text.squeezeBreaks (tidy t) = Text.squeezeBreaks t) :
    Carries tidy fun s t => Text.squeezeBreaks s = Text.squeezeBreaks t where
  refl _ := rfl
  append {s t s' t'} h h' := by
    rw [← Text.squeezeBreaks_append_squeezeBreaks, h, h', Text.squeezeBreaks_append_squeezeBreaks]
  allBlank_eq {s t} h := by rw [← Text.allBlank_squeezeBreaks s, h, Text.allBlank_squeezeBreaks]
  row {s t} h := by
    rw [htidy, Text.squeezeBreaks_squeezeBreaks, Text.squeezeBreaks_trimEnd, h,
      Text.squeezeBreaks_trimEnd]

namespace Document

variable (options : Options) (resolver : Resolver) (d : Document)

theorem renderWith_squeezeBreaks :
    d.renderWith Text.squeezeBreaks options resolver = d.render options resolver := by
  have hroot := ((carries_eq.node d.root.toNode).1 Siblings.start
    ⟨[], options, resolver, d.members, none⟩).eq
  rw [renderWith, hroot]
  rfl

theorem renderWith_eq {tidy : Text → Text}
    (htidy : ∀ t, Text.squeezeBreaks (tidy t) = Text.squeezeBreaks t) :
    d.renderWith tidy options resolver = d.render options resolver := by
  have hroot := ((carries_squeezed htidy).node d.root.toNode).1 Siblings.start
    ⟨[], options, resolver, d.members, none⟩
  exact (hroot.bind (q := Eq) fun _ _ h => .ok h).eq

theorem not_spare_of_render {page : Text} (h : (d.render options resolver).result = .ok page) :
    ¬ Text.spareBreaks <:+: page := by
  obtain ⟨markdown, -, hpage⟩ := Outcome.of_bind_result_ok h
  cases hpage
  exact Text.not_spare_squeezeBreaks markdown

end Document

/-- Squeezed text is a normal form, and parts of a text may be squeezed early: the page of a document
is the same whether line breaks in rows are squeezed at once or with all the rest. -/
theorem line_breaks_squeezed_early_or_late :
    (∀ t, Text.squeezeBreaks t = (t.splitBy (· == ·)).flatMap Text.shortenedRun) ∧
    (∀ t, Text.squeezeBreaks (Text.squeezeBreaks t) = Text.squeezeBreaks t) ∧
    (∀ s t u, Text.squeezeBreaks (s ++ Text.squeezeBreaks t ++ u) = Text.squeezeBreaks (s ++ t ++ u)) ∧
    ∀ (options : Options) (resolver : Resolver) (d : Document),
      (∀ page, (d.render options resolver).result = .ok page → ¬ Text.spareBreaks <:+: page) ∧
      d.renderWith Text.squeezeBreaks options resolver = d.render options resolver ∧
      d.renderWith id options resolver = d.render options resolver := by
  refine ⟨Text.squeezeBreaks_eq_flatMap, Text.squeezeBreaks_squeezeBreaks, Text.squeezeBreaks_within, ?_⟩
  intro options resolver d
  exact ⟨fun page => d.not_spare_of_render options resolver, d.renderWith_squeezeBreaks options resolver,
    d.renderWith_eq options resolver fun _ => rfl⟩

def brokenRow : Document :=
  ⟨⟨⟨"doc", [], ⟨1, 1⟩⟩, [.element ⟨"members", [], ⟨1, 6⟩⟩
    [.element ⟨"member", [("name", "P:A.B")], ⟨1, 15⟩⟩
      [.element ⟨"summary", [], ⟨1, 36⟩⟩ [.text "x"], .element ⟨"remarks", [], ⟨1, 56⟩⟩ [.text "y"]]]]⟩⟩

theorem line_breaks_squeezed_early_or_late_row :
    let options : Options := ⟨.error, .perAssembly⟩
    let page : Text :=
      "# \n\n#### Properties:\n|Name | Type | Description |\n|-----|------|------|\n|B|P|x\n\ny|\n\n"
    let ctx : Context := ⟨[], options, .unknown, brokenRow.members, none⟩
    (brokenRow.root.toNode.renderWith id .start ctx).result ≠ (brokenRow.root.toNode.render .start ctx).result ∧
      (brokenRow.renderWith id options .unknown).result = .ok page ∧ ¬ Text.spareBreaks <:+: page := by
  intro options page ctx
  obtain ⟨-, -, -, hpages⟩ := line_breaks_squeezed_early_or_late
  obtain ⟨hspare, -, hlate⟩ := hpages options .unknown brokenRow
  have hpage : (brokenRow.render options .unknown).result = .ok page := by decide +kernel
  exact ⟨by decide +kernel, hlate ▸ hpage, hspare page hpage⟩

end Docmark
