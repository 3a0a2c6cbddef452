import Mathlib.Data.List.Forall2
import Docmark.Proofs.Blanks
import Docmark.Proofs.Keys
import Docmark.Proofs.Tree

namespace Docmark

def Element.face (e : Element) : StartTag × List Text :=
  (e.tag, parameterNames e)

def Element.memberFaces (e : Element) : List (StartTag × List Text) :=
  (e.childrenNamed "member").map face

theorem Element.attr?_map_face {e f : Option Element} (h : e.map face = f.map face) (key : Text) :
    e.bind (·.attr? key) = f.bind (·.attr? key) := by
  have hattr : ∀ e : Option Element,
      e.bind (·.attr? key) = (e.map face).bind (·.1.attributes.lookup key) := by
    intro e
    cases e <;> rfl
  rw [hattr, hattr, h]

theorem displayName_of_face {e f : Element} (h : e.face = f.face) (assembly : Text) :
    displayName assembly e = displayName assembly f := by
  obtain ⟨tag, children⟩ := e
  obtain ⟨tag', children'⟩ := f
  rw [Element.face, Element.face, Prod.mk.injEq] at h
  obtain ⟨rfl, hparams⟩ := h
  unfold displayName
  rw [hparams]
  rfl

theorem MemberIndex.get?_map_face {members others : MemberIndex}
    (h : members.map Element.face = others.map Element.face) (identifier : Text) :
    (members.get? identifier).map Element.face = (others.get? identifier).map Element.face := by
  have hface : ∀ members : MemberIndex, (members.get? identifier).map Element.face =
      (members.map Element.face).reverse.find?
        (·.1.attributes.lookup ("name" : Text) = some identifier) := by
    intro members
    rw [← List.map_reverse, List.find?_map]
    rfl
  rw [hface, hface, h]

namespace Context

structure Alike (ctx other : Context) : Prop where
  assembly_eq : ctx.assembly = other.assembly
  options_eq : ctx.options = other.options
  resolver_eq : ctx.resolver = other.resolver
  members_eq : ctx.members.map Element.face = other.members.map Element.face
  member_eq : ctx.member.map Element.face = other.member.map Element.face

variable {ctx other : Context}

theorem Alike.refl (ctx : Context) : ctx.Alike ctx :=
  ⟨rfl, rfl, rfl, rfl, rfl⟩

theorem Alike.under (h : ctx.Alike other) (key : Key) {e f : Element} (hf : e.face = f.face) :
    (ctx.under key e).Alike (other.under key f) := by
  unfold Context.under
  split
  · exact ⟨h.assembly_eq, h.options_eq, h.resolver_eq, h.members_eq, congrArg some hf⟩
  · exact h

theorem Alike.withAssembly (h : ctx.Alike other) (assembly : Text) :
    ({ ctx with assembly := assembly } : Context).Alike { other with assembly := assembly } :=
  ⟨rfl, h.options_eq, h.resolver_eq, h.members_eq, h.member_eq⟩

theorem Alike.isHidden_eq (h : ctx.Alike other) {e f : Element} (ht : e.tag = f.tag) :
    ctx.isHidden e = other.isHidden f := by
  unfold isHidden Element.attr? isVisible
  rw [h.resolver_eq, ht]

theorem Alike.memberName?_eq (h : ctx.Alike other) : ctx.memberName? = other.memberName? :=
  Element.attr?_map_face h.member_eq "name"

theorem Alike.unknown_eq (h : ctx.Alike other) (tag : StartTag) :
    ctx.unknown tag = other.unknown tag := by
  unfold unknown
  rw [h.options_eq]

theorem Alike.targetOf_eq (h : ctx.Alike other) (assembly anchor : Text) :
    Link.targetOf ctx assembly anchor = Link.targetOf other assembly anchor := by
  unfold Link.targetOf isSinglePage
  rw [h.options_eq]

theorem Alike.displayOf_eq (h : ctx.Alike other) (id : MemberId) :
    Link.displayOf ctx id = Link.displayOf other id := by
  have hmember := MemberIndex.get?_map_face h.members_eq id.raw
  unfold Link.displayOf
  split
  · cases hm : ctx.members.get? id.raw with
    | none =>
      rw [hm, Option.map_none, eq_comm, Option.map_eq_none_iff] at hmember
      rw [hmember, h.assembly_eq]
    | some m =>
      rw [hm, Option.map_some, eq_comm, Option.map_eq_some_iff] at hmember
      obtain ⟨m', hm', hf⟩ := hmember
      rw [hm', h.assembly_eq]
      exact displayName_of_face hf.symm _
  · rfl

theorem Alike.ofCref_eq (h : ctx.Alike other) (cref : Text) :
    Link.ofCref ctx cref = Link.ofCref other cref := by
  unfold Link.ofCref Link.ofName Link.anchorOf Link.assemblyOf isSinglePage
  simp only [h.assembly_eq, h.options_eq, h.targetOf_eq, h.displayOf_eq]

theorem Alike.cell_eq (h : ctx.Alike other) (d : TypeDescriptor) : d.cell ctx = d.cell other := by
  unfold TypeDescriptor.cell TypeDescriptor.target isSinglePage
  rw [h.options_eq, h.assembly_eq]

end Context

open Context

namespace Content

theorem declaredType?_eq {ctx other : Context} (h : ctx.Alike other) (id : MemberId) :
    declaredType? ctx id = declaredType? other id := by
  unfold declaredType?
  rw [h.resolver_eq]

theorem rowType_eq {ctx other : Context} (h : ctx.Alike other) (raw : Text) :
    rowType ctx raw = rowType other raw := by
  unfold rowType
  simp only [declaredType?_eq h, h.cell_eq]

theorem returnText_eq {ctx other : Context} (h : ctx.Alike other) {e f : Element}
    (hi : inlineText e = inlineText f) : returnText ctx e = returnText other f := by
  unfold returnText
  simp only [declaredType?_eq h, h.memberName?_eq, hi]

theorem linkValues_eq {ctx other : Context} (h : ctx.Alike other) {e f : Element}
    (ht : e.tag = f.tag) (hi : inlineText e = inlineText f) :
    linkValues ctx e = linkValues other f := by
  unfold linkValues Element.attr?
  simp only [h.ofCref_eq, ht, hi]

theorem anchorValues_eq {e f : Element} (ht : e.tag = f.tag) (hi : inlineText e = inlineText f) :
    anchorValues e = anchorValues f := by
  unfold anchorValues Element.attr?
  rw [ht, hi]

end Content

structure Parts.Alike (options : Options) (content : Content) (p q : Parts) : Prop where
  body_eq : ∀ {ctx other : Context}, ctx.Alike other → ctx.options = options →
    p.body ctx = q.body other
  assembly_eq : ∀ {ctx other : Context}, ctx.Alike other → ctx.options = options →
    p.assembly ctx = q.assembly other
  members_eq : content = .document → ∀ {ctx other : Context}, ctx.Alike other →
    ctx.options = options → p.members ctx = q.members other

theorem Content.values_eq {options : Options} {content : Content} {p q : Parts}
    (hp : p.Alike options content q) {ctx other : Context} (h : ctx.Alike other)
    (ho : ctx.options = options) {e f : Element} (hf : e.face = f.face)
    (hd : documentName e = documentName f) (hi : inlineText e = inlineText f)
    (hc : content = codeBlock → e.textContent = f.textContent) :
    content.values e p ctx = content.values f q other := by
  have ht : e.tag = f.tag := congrArg Prod.fst hf
  have hattr (key : Text) : e.attr? key = f.attr? key := by
    rw [Element.attr?, ht, Element.attr?]
  have hdisplay : displayName ctx.assembly e = displayName other.assembly f := by
    rw [h.assembly_eq, displayName_of_face hf]
  have hbody := hp.body_eq h ho
  cases content with
  | document =>
    have hin := h.withAssembly (documentName e)
    simp only [values, ← hd, hp.assembly_eq hin ho, hp.members_eq rfl hin ho]
  | nameAndBody | list | description => simp only [values, hdisplay, hbody]
  | body => simp only [values, hbody]
  | memberRow => simp only [values, hdisplay, hbody, hattr, rowType_eq h]
  | memberName => simp only [values, h.memberName?_eq]
  | codeBlock => simp only [values, hattr, hc rfl]
  | parameter => simp only [values, hattr, h.assembly_eq, hbody]
  | crossReference => simp only [values, linkValues_eq h ht hi]
  | anchor => simp only [values, anchorValues_eq ht hi]
  | keyword => simp only [values, hattr, hi]
  | returnType => simp only [values, returnText_eq h hi]
  | hyperlink => simp only [values, hattr, hi]
  | nothing => rfl

namespace Siblings

structure Alike (s other : Siblings) : Prop where
  parent_eq : s.parent.map Element.face = other.parent.map Element.face
  previous_eq : s.previous = other.previous
  last_eq : s.last = other.last

theorem Alike.refl (s : Siblings) : s.Alike s :=
  ⟨rfl, rfl, rfl⟩

theorem alike_under {e f : Element} (hf : e.face = f.face) : (under e).Alike (under f) :=
  ⟨congrArg some hf, rfl, rfl⟩

end Siblings

theorem Key.of?_eq {s other : Siblings} (hs : s.Alike other) {ctx ctx' : Context}
    (h : ctx.Alike ctx') {e f : Element} (ht : e.tag = f.tag)
    (he : e.textContent.isEmpty = f.textContent.isEmpty) : of? s ctx e = of? other ctx' f := by
  have howner : ownerKind? s ctx = ownerKind? other ctx' := by
    have hparent : (s.parent.or ctx.member).map Element.face =
        (other.parent.or ctx'.member).map Element.face := by
      rw [Option.map_or, Option.map_or, hs.parent_eq, h.member_eq]
    have hname := Element.attr?_map_face hparent "name"
    unfold ownerKind?
    simp only [Option.bind_eq_bind, ← Option.bind_assoc, hname]
  unfold of? ofSee Element.name Element.attr?
  rw [howner, hs.previous_eq, hs.last_eq, ht, he]

namespace Node

structure InsideTwins (options : Options) (tag : StartTag) (children others : List Node) :
    Prop where
  parameterNames_eq : parameterNames ⟨tag, children⟩ = parameterNames ⟨tag, others⟩
  nameText_eq : (Element.child? ⟨tag, children⟩ "name").map Element.textContent =
    (Element.child? ⟨tag, others⟩ "name").map Element.textContent
  documentName_eq : Content.documentName ⟨tag, children⟩ = Content.documentName ⟨tag, others⟩
  memberFaces_eq : Element.memberFaces ⟨tag, children⟩ = Element.memberFaces ⟨tag, others⟩
  rewraps : Text.Rewraps (textContents children) (textContents others)
  renderAll_eq : ∀ {e f : Element} {ctx other : Context}, e.face = f.face → ctx.Alike other →
    ctx.options = options →
    renderAll (.under e) ctx children = renderAll (.under f) other others
  renderAssembly_eq : ∀ {ctx other : Context}, ctx.Alike other → ctx.options = options →
    renderAssembly ctx children = renderAssembly other others
  renderFirstMembers_eq : tag.name = "doc" → ∀ {ctx other : Context}, ctx.Alike other →
    ctx.options = options → renderFirstMembers ctx children = renderFirstMembers other others
  renderMemberList_eq : ∀ {e f : Element} {ctx other : Context}, e.face = f.face → ctx.Alike other →
    ctx.options = options →
    renderMemberList (.under e) ctx children = renderMemberList (.under f) other others

end Node

/-- Under the given options, the one element can be put in place of the other. -/
structure Element.Twin (options : Options) (e f : Element) : Prop where
  face_eq : e.face = f.face
  nameText_eq : (e.child? "name").map textContent = (f.child? "name").map textContent
  memberFaces_eq : e.memberFaces = f.memberFaces
  verbatim : e.name = "name" → e.textContent = f.textContent
  rewraps : Text.Rewraps e.textContent f.textContent
  render_eq : ∀ {s s' : Siblings} {ctx other : Context}, s.Alike s' → ctx.Alike other →
    ctx.options = options → e.toNode.render s ctx = f.toNode.render s' other
  renderMembers_eq : ∀ {ctx other : Context}, ctx.Alike other → ctx.options = options →
    Node.renderMembers ctx e.toNode = Node.renderMembers other f.toNode

theorem Element.Twin.tag_eq {options : Options} {e f : Element} (h : e.Twin options f) :
    e.tag = f.tag :=
  congrArg Prod.fst h.face_eq

namespace Node

inductive Twin (options : Options) : Node → Node → Prop
  | text {s t : Text} : Text.Rewraps s t → Twin options (.text s) (.text t)
  | element {e f : Element} : e.Twin options f → Twin options (.element e.tag e.children)
    (.element f.tag f.children)

variable {options : Options}

theorem InsideTwins.element {tag : StartTag} {children others : List Node}
    (h : InsideTwins options tag children others)
    (hv : tag.name = "code" ∨ tag.name = "name" → textContents children = textContents others) :
    Element.Twin options ⟨tag, children⟩ ⟨tag, others⟩ := by
  let e : Element := ⟨tag, children⟩
  let f : Element := ⟨tag, others⟩
  have hface : e.face = f.face := congrArg (Prod.mk tag) h.parameterNames_eq
  have hinline : Content.inlineText e = Content.inlineText f :=
    congrArg Text.trim h.rewraps.collapse_eq
  refine ⟨hface, h.nameText_eq, h.memberFaces_eq, fun hname => hv (Or.inr hname), h.rewraps, ?_, ?_⟩
  · intro s s' ctx other hs hc ho
    have hkey : Key.of? s ctx e = Key.of? s' other f := Key.of?_eq hs hc rfl h.rewraps.isEmpty_eq
    have hhidden : ctx.isHidden e = other.isHidden f := hc.isHidden_eq rfl
    have hname : f.name = e.name := rfl
    change e.toNode.render s ctx = f.toNode.render s' other
    rw [Element.render_toNode, Element.render_toNode, hkey, hhidden, hname]
    by_cases hm : e.name = "member" ∧ other.isHidden f = true
    · rw [if_pos hm, if_pos hm]
    · rw [if_neg hm, if_neg hm]
      cases hk : Key.of? s' other f with
      | none => exact hc.unknown_eq tag
      | some key =>
        -- Text is read as it stands only in `code` and `name`, members only in `doc`.
        have hparts : e.parts.Alike options key.rule.content f.parts :=
          ⟨h.renderAll_eq hface, h.renderAssembly_eq, fun hcontent =>
            h.renderFirstMembers_eq (Key.name_of_document hk hcontent)⟩
        have hcode : key.rule.content = .codeBlock → e.textContent = f.textContent := fun hcontent =>
          hv (Or.inl (Key.name_of_codeBlock hk hcontent))
        have hoptions : (ctx.under key e).options = options := by
          unfold Context.under
          split <;> exact ho
        have hvalues := Content.values_eq hparts (hc.under key hface) hoptions hface
          h.documentName_eq hinline hcode
        exact congrArg (· >>= fun values => Outcome.ok (fill key.rule.template values)) hvalues
  · intro ctx other hc ho
    exact h.renderMemberList_eq hface hc ho

theorem Twin.toElement {e f : Element} (h : Twin options e.toNode f.toNode) : e.Twin options f := by
  obtain ⟨tag, children⟩ := e
  obtain ⟨tag', others⟩ := f
  cases h with
  | element he => exact he

theorem Twin.isNamed_eq {n m : Node} (h : n.Twin options m) (name : Text) :
    n.isNamed name = m.isNamed name := by
  cases h with
  | text => rfl
  | element he => rw [isNamed, isNamed, he.tag_eq]

theorem Twin.render_eq {n m : Node} (h : n.Twin options m) {s s' : Siblings} {ctx other : Context}
    (hs : s.Alike s') (hc : ctx.Alike other) (ho : ctx.options = options) :
    n.render s ctx = m.render s' other := by
  cases h with
  | text ht => exact congrArg Outcome.ok ht.collapse_eq
  | element he => exact he.render_eq hs hc ho

theorem Twin.renderMembers_eq {n m : Node} (h : n.Twin options m) {ctx other : Context}
    (hc : ctx.Alike other) (ho : ctx.options = options) :
    renderMembers ctx n = renderMembers other m := by
  cases h with
  | text => rfl
  | element he => exact he.renderMembers_eq hc ho

theorem Twin.alike_past {n m : Node} (h : n.Twin options m) {s s' : Siblings} {ctx other : Context}
    (hs : s.Alike s') (hc : ctx.Alike other) : (s.past ctx n).Alike (s'.past other m) := by
  cases h with
  | text => exact hs
  | @element e f he =>
    refine ⟨hs.parent_eq, congrArg (fun tag : StartTag => some tag.name) he.tag_eq, ?_⟩
    change (if ctx.isHidden e then none else (e.attr? "name").bind Run.of?).or s.last =
      (if other.isHidden f then none else (f.attr? "name").bind Run.of?).or s'.last
    rw [hc.isHidden_eq he.tag_eq, hs.last_eq, Element.attr?, Element.attr?, he.tag_eq]

section

variable {ns ms : List Node}

theorem rewraps_of_twins (h : List.Forall₂ (Twin options) ns ms) :
    Text.Rewraps (textContents ns) (textContents ms) := by
  induction h with
  | nil => exact .nil
  | cons hn _ ih =>
    rw [textContents, textContents]
    refine .append ?_ ih
    cases hn with
    | text ht => exact ht
    | element he => exact he.rewraps

theorem map_face_of_twins (h : List.Forall₂ (Twin options) ns ms) :
    (ns.filterMap element?).map Element.face = (ms.filterMap element?).map Element.face := by
  induction h with
  | nil => rfl
  | cons hn _ ih =>
    cases hn with
    | text => exact ih
    | element he => exact congrArg₂ List.cons he.face_eq ih

theorem child?_element_cons (tag : StartTag) (e : Element) (ns : List Node) (name : Text) :
    Element.child? ⟨tag, .element e.tag e.children :: ns⟩ name =
      if e.name = name then some e else Element.child? ⟨tag, ns⟩ name := by
  change List.find? _ (e :: ns.filterMap element?) = _
  rw [List.find?_cons]
  by_cases he : e.name = name
  · rw [decide_eq_true he, if_pos he]
  · rw [decide_eq_false he, if_neg he]
    rfl

theorem map_child?_of_twins (h : List.Forall₂ (Twin options) ns ms) (tag : StartTag) {name : Text}
    {β : Type} {f : Element → β}
    (hf : ∀ a b : Element, a.Twin options b → a.name = name → f a = f b) :
    (Element.child? ⟨tag, ns⟩ name).map f = (Element.child? ⟨tag, ms⟩ name).map f := by
  induction h with
  | nil => rfl
  | cons hn _ ih =>
    cases hn with
    | text => exact ih
    | @element a b he =>
      have hname : b.name = a.name := congrArg StartTag.name he.tag_eq.symm
      rw [child?_element_cons, child?_element_cons, hname]
      by_cases ha : a.name = name
      · rw [if_pos ha, if_pos ha, Option.map_some, Option.map_some, hf a b he ha]
      · rw [if_neg ha, if_neg ha, ih]

theorem renderAll_of_twins (h : List.Forall₂ (Twin options) ns ms) {s s' : Siblings}
    {ctx other : Context} (hs : s.Alike s') (hc : ctx.Alike other) (ho : ctx.options = options) :
    renderAll s ctx ns = renderAll s' other ms := by
  induction h generalizing s s' with
  | nil => rfl
  | cons hn _ ih => rw [renderAll, renderAll, hn.render_eq hs hc ho, ih (hn.alike_past hs hc)]

theorem renderMemberList_of_twins (h : List.Forall₂ (Twin options) ns ms) {s s' : Siblings}
    {ctx other : Context} (hs : s.Alike s') (hc : ctx.Alike other) (ho : ctx.options = options) :
    renderMemberList s ctx ns = renderMemberList s' other ms := by
  induction h generalizing s s' with
  | nil => rfl
  | cons hn _ ih =>
    rw [renderMemberList, renderMemberList, hn.isNamed_eq, hn.render_eq hs hc ho,
      ih (hn.alike_past hs hc), ih hs]

theorem renderAssembly_of_twins (h : List.Forall₂ (Twin options) ns ms) {ctx other : Context}
    (hc : ctx.Alike other) (ho : ctx.options = options) :
    renderAssembly ctx ns = renderAssembly other ms := by
  induction h with
  | nil => rfl
  | cons hn _ ih =>
    rw [renderAssembly, renderAssembly, hn.isNamed_eq, hn.render_eq (.refl _) hc ho, ih]

theorem renderFirstMembers_of_twins (h : List.Forall₂ (Twin options) ns ms) {ctx other : Context}
    (hc : ctx.Alike other) (ho : ctx.options = options) :
    renderFirstMembers ctx ns = renderFirstMembers other ms := by
  induction h with
  | nil => rfl
  | cons hn _ ih =>
    rw [renderFirstMembers, renderFirstMembers, hn.isNamed_eq, hn.renderMembers_eq hc ho, ih]

theorem parameterNames_eq (e : Element) : parameterNames e =
    ((e.elements.map Element.face).filter (·.1.name = ("param" : Text))).map
      fun face => (face.1.attributes.lookup ("name" : Text)).getD [] := by
  rw [List.filter_map, List.map_map]
  rfl

theorem memberFaces_eq (e : Element) : e.memberFaces =
    (e.elements.map Element.face).filter (·.1.name = ("member" : Text)) := by
  rw [List.filter_map]
  rfl

theorem documentName_eq (e : Element) : Content.documentName e =
    (((e.child? "assembly").map fun a => (a.child? "name").map Element.textContent).join.map
      Text.trim).getD [] := by
  unfold Content.documentName
  cases e.child? "assembly" with
  | none => rfl
  | some a =>
    dsimp only [Option.bind_some, Option.map_some, Option.join_some]
    cases a.child? "name" <;> rfl

theorem insideTwins_of_twins (h : List.Forall₂ (Twin options) ns ms) (tag : StartTag) :
    InsideTwins options tag ns ms where
  parameterNames_eq := by
    rw [parameterNames_eq, parameterNames_eq]
    unfold Element.elements
    rw [map_face_of_twins h]
  nameText_eq := map_child?_of_twins h tag fun _ _ he hname => he.verbatim hname
  documentName_eq := by
    rw [documentName_eq, documentName_eq, map_child?_of_twins h tag fun _ _ he _ => he.nameText_eq]
  memberFaces_eq := by
    rw [memberFaces_eq, memberFaces_eq]
    unfold Element.elements
    rw [map_face_of_twins h]
  rewraps := rewraps_of_twins h
  renderAll_eq hf := renderAll_of_twins h (Siblings.alike_under hf)
  renderAssembly_eq := renderAssembly_of_twins h
  renderFirstMembers_eq _ := renderFirstMembers_of_twins h
  renderMemberList_eq hf := renderMemberList_of_twins h (Siblings.alike_under hf)

end

theorem Twin.refl (options : Options) (n : Node) : n.Twin options n := by
  induction n with
  | text content => exact .text (.refl content)
  | element tag children ih =>
    have hchildren : List.Forall₂ (Twin options) children children := List.forall₂_same.2 ih
    exact .element (e := ⟨tag, children⟩) (f := ⟨tag, children⟩)
      ((insideTwins_of_twins hchildren tag).element fun _ => rfl)

end Node

namespace Document

theorem map_face_members (d : Document) :
    d.members.map Element.face = ((d.root.child? "members").map Element.memberFaces).getD [] := by
  unfold members
  cases d.root.child? "members" <;> rfl

theorem map_face_members_of_twins {options : Options} {tag : StartTag} {ns ms : List Node}
    (h : List.Forall₂ (Node.Twin options) ns ms) :
    (members ⟨⟨tag, ns⟩⟩).map Element.face = (members ⟨⟨tag, ms⟩⟩).map Element.face := by
  rw [map_face_members, map_face_members,
    Node.map_child?_of_twins h tag fun _ _ he _ => he.memberFaces_eq]

theorem render_of_twin {options : Options} {d d' : Document} (h : d.root.Twin options d'.root)
    (hm : d.members.map Element.face = d'.members.map Element.face) (resolver : Resolver) :
    d.render options resolver = d'.render options resolver := by
  let ctx : Context := ⟨[], options, resolver, d.members, none⟩
  let other : Context := ⟨[], options, resolver, d'.members, none⟩
  have halike : ctx.Alike other := ⟨rfl, rfl, rfl, hm, rfl⟩
  have hroot : d.root.render ctx = d'.root.render other := h.render_eq (.refl _) halike rfl
  exact congrArg (· >>= fun markdown => Outcome.ok (Text.squeezeBreaks markdown)) hroot

end Document
end Docmark
