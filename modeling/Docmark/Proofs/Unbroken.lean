import Docmark.Proofs.Anchors
import Docmark.Proofs.Braces
import Docmark.Proofs.Events

/-!
Where no line feed comes from: names, types and links are put together from attributes and metadata,
and they add none of their own.
-/

namespace Docmark

variable {c : Char}

namespace Text

theorem not_mem_collapse (hc : isBlank c = true) (hs : c ≠ ' ') (t : Text) : c ∉ collapse t := by
  have hspace : isBlank ' ' = true := rfl
  induction t using collapse.induct with
  | case1 => exact List.not_mem_nil
  | case2 d hd => simpa [collapse, hd] using hs
  | case3 d hd =>
    have hne : c ≠ d := fun h => hd (h ▸ hc)
    simpa [collapse, hd] using hne
  | case4 d e rest hd he ih => rwa [collapse_blank_blank hd he]
  | case5 d e rest hd he ih => simpa [collapse, hd, he] using ⟨hs, ih⟩
  | case6 d e rest hd ih =>
    have hne : c ≠ d := fun h => hd (h ▸ hc)
    simpa [collapse, hd] using ⟨hne, ih⟩

theorem not_mem_joinWith {separator : Text} (hs : c ∉ separator) {pieces : List Text}
    (h : ∀ piece ∈ pieces, c ∉ piece) : c ∉ joinWith separator pieces := by
  rw [mem_joinWith hs]
  rintro ⟨piece, hp, hin⟩
  exact h piece hp hin

theorem mem_of_dropOpening? {opening t rest : Text} (h : dropOpening? opening t = some rest)
    (hc : c ∈ rest) : c ∈ t := by
  rw [dropOpening?_eq_some.1 h]
  exact List.mem_append_right opening hc

theorem mem_of_mem_lowerAfter (hc : isAlphanumeric c = false) (hdot : c ≠ dotAbove) {t before : Text}
    (h : c ∈ lowerAfter before t) : c ∈ t := by
  have hother {d : Char} (hd : isAlphanumeric d = true) : c ≠ d := by
    rintro rfl
    rw [hc] at hd
    cases hd
  induction t generalizing before with
  | nil => exact h
  | cons d t ih =>
    rw [lowerAfter, List.mem_append] at h
    rcases h with h | h
    · split at h
      · have hsigma : c = 'ς' ∨ c = 'σ' := by
          rw [List.mem_singleton] at h
          split at h
          · exact .inl h
          · exact .inr h
        rcases hsigma with hsigma | hsigma
        · exact absurd hsigma (hother (by decide))
        · exact absurd hsigma (hother (by decide))
      · cases hd : isAlphanumeric d with
        | false =>
          rw [lowerChar_of_not_isAlphanumeric hd, List.mem_singleton] at h
          exact h ▸ List.mem_cons_self
        | true =>
          obtain ⟨x, xs, hlower, hx, hxs⟩ := lowerChar_of_isAlphanumeric hd
          rw [hlower] at h
          rcases List.mem_cons.1 h with hcx | hcx
          · exact absurd hcx (hother hx)
          · exact absurd (hxs c hcx) hdot
    · exact List.mem_cons_of_mem d (ih h)

end Text

theorem mem_of_mem_dropOpening {opening t : Text} (h : c ∈ dropOpening opening t) : c ∈ t := by
  unfold dropOpening at h
  cases hd : Text.dropOpening? opening t with
  | none => rwa [hd] at h
  | some rest =>
    rw [hd] at h
    exact Text.mem_of_dropOpening? hd h

theorem mem_of_mem_stripNamespace {assembly name : Text} (h : c ∈ stripNamespace assembly name) :
    c ∈ name := by
  unfold stripNamespace at h
  split at h
  · exact mem_of_mem_dropOpening h
  · exact mem_of_mem_dropOpening (mem_of_mem_dropOpening h)

theorem Params.mem_of_mem_split (hc : c ≠ ',') {t piece : Text} (hp : piece ∈ split t)
    (h : c ∈ piece) : c ∈ t := by
  cases hblank : Text.allBlank t with
  | true =>
    rw [split, if_pos hblank] at hp
    cases hp
  | false =>
    have hcomma : c ∉ ("," : Text) := by simpa using hc
    rw [← joinWith_split hblank]
    exact (Text.mem_joinWith hcomma).2 ⟨piece, hp, h⟩

namespace TypeForm

variable {t : Text}

theorem infix_of_reference {target : Text} (h : of t = .reference target) : target <:+: t := by
  unfold of at h
  split at h
  · next hend =>
    cases h
    rw [Text.dropEnding?_eq_some.1 hend]
    exact (List.prefix_append _ _).isInfix
  · split at h
    · cases h
    · split at h <;> cases h

theorem infix_of_array {element : Text} (h : of t = .array element) : element <:+: t := by
  unfold of at h
  split at h
  · cases h
  · split at h
    · next helement =>
      cases h
      unfold element? at helement
      split at helement
      · split at helement
        · next hcut =>
          rw [Option.ite_none_left_eq_some, Option.some.injEq] at helement
          rw [(Text.eq_of_cutLast? hcut).1, helement.2]
          exact (List.prefix_append _ _).isInfix
        · cases helement
      · cases helement
    · split at h <;> cases h

theorem infix_of_generic {name arguments : Text} (h : of t = .generic name arguments) :
    name <:+: t ∧ arguments <:+: t := by
  unfold of at h
  split at h
  · cases h
  · split at h
    · cases h
    · split at h
      · next harguments =>
        cases h
        unfold arguments? at harguments
        split at harguments
        · next hcut =>
          obtain ⟨inner, hend, hpair⟩ := Option.map_eq_some_iff.1 harguments
          cases hpair
          rw [(Text.eq_of_cutFirst? hcut).1, Text.dropEnding?_eq_some.1 hend]
          exact ⟨(List.prefix_append _ _).isInfix, ⟨name ++ ['{'], ['}'], by simp⟩⟩
        · cases harguments
      · cases h

theorem mem_of_mem_parts (hc : c ≠ ',') {part : Text} (hp : part ∈ (of t).parts) (h : c ∈ part) :
    c ∈ t := by
  cases hform : of t with
  | reference target =>
    rw [hform] at hp
    exact (infix_of_reference hform).subset (List.mem_singleton.1 hp ▸ h)
  | array element =>
    rw [hform] at hp
    exact (infix_of_array hform).subset (List.mem_singleton.1 hp ▸ h)
  | generic name arguments =>
    rw [hform] at hp
    exact (infix_of_generic hform).2.subset (Params.mem_of_mem_split hc hp h)
  | plain =>
    rw [hform] at hp
    cases hp

theorem mem_of_mem_ownName (h : c ∈ (of t).ownName t) : c ∈ t := by
  cases hform : of t with
  | reference | array =>
    rw [hform] at h
    cases h
  | generic name arguments =>
    rw [hform] at h
    exact (infix_of_generic hform).1.subset (Text.mem_of_mem_afterLast h)
  | plain =>
    rw [hform] at h
    exact Text.mem_of_mem_afterLast h

end TypeForm

theorem ne_comma_of_isAdded (hc : isAdded c = false) : c ≠ ',' := by
  rintro rfl
  cases hc

theorem mem_of_mem_typeText (hc : isAdded c = false) {assembly raw : Text}
    (h : c ∈ typeText assembly raw) : c ∈ raw := by
  -- Parts are shorter, which is what the induction is on.
  induction hn : raw.length using Nat.strong_induction_on generalizing raw with
  | _ n ih =>
    apply Text.mem_of_mem_trim
    rcases (mem_typeText_step hc assembly raw).1 h with hown | ⟨part, hpart, hin⟩
    · exact TypeForm.mem_of_mem_ownName hown
    · have hmem : c ∈ part := ih part.length (hn ▸ TypeForm.length_of_mem_parts hpart) hin rfl
      exact TypeForm.mem_of_mem_parts (ne_comma_of_isAdded hc) hpart hmem

theorem mem_of_mem_parameterTexts (hc : isAdded c = false) {assembly text : Text}
    {types names : List Text} (ht : text ∈ parameterTexts assembly types names) (h : c ∈ text) :
    (∃ type ∈ types, c ∈ type) ∨ ∃ name ∈ names, c ∈ name := by
  induction types, names using parameterTexts.induct with
  | case1 type types name names ih =>
    rw [parameterTexts] at ht
    rcases List.mem_cons.1 ht with rfl | ht
    · have hspace : c ∉ (" " : Text) := not_mem_of_isAdded hc (by decide)
      simp only [List.mem_append, hspace, or_false] at h
      rcases h with h | h
      · exact .inl ⟨type, List.mem_cons_self, mem_of_mem_typeText hc h⟩
      · exact .inr ⟨name, List.mem_cons_self, h⟩
    · rcases ih ht with ⟨other, ho, hin⟩ | ⟨other, ho, hin⟩
      · exact .inl ⟨other, List.mem_cons_of_mem _ ho, hin⟩
      · exact .inr ⟨other, List.mem_cons_of_mem _ ho, hin⟩
  | case2 names =>
    rw [parameterTexts] at ht
    exact .inr ⟨text, ht, h⟩
  | case3 type types =>
    rw [parameterTexts] at ht
    cases ht

namespace MemberId

variable {raw : Text} {id : MemberId}

theorem mem_of_mem_name (hid : parse? raw = some id) (h : c ∈ id.name) : c ∈ raw := by
  obtain ⟨s, hspelled, rfl⟩ := exists_spelling hid
  rw [(recovers_of_text hspelled hid).name_eq] at h
  simp [Spelling.text, h]

theorem mem_of_mem_params (hid : parse? raw = some id) (hc : c ≠ ',') {param : Text}
    (hp : param ∈ id.params.getD []) (h : c ∈ param) : c ∈ raw := by
  obtain ⟨s, hspelled, rfl⟩ := exists_spelling hid
  have hrecovers := recovers_of_text hspelled hid
  cases hlist : s.list with
  | none =>
    rw [hrecovers.bare hlist] at hp
    cases hp
  | some list =>
    obtain ⟨inner, tail⟩ := list
    cases hblank : Text.allBlank inner with
    | true =>
      rw [hrecovers.blank inner tail hlist hblank] at hp
      cases hp
    | false =>
      obtain ⟨params, hparams, hjoin⟩ := hrecovers.joined inner tail hlist hblank
      rw [hparams, Option.getD_some] at hp
      have hcomma : c ∉ ("," : Text) := by simpa using hc
      have hinner : c ∈ inner := hjoin ▸ (Text.mem_joinWith hcomma).2 ⟨param, hp, h⟩
      simp [Spelling.text, Spelling.behind, hlist, hinner]

theorem mem_of_mem_declaringType (h : c ∈ id.declaringType) : c ∈ id.name := by
  unfold declaringType at h
  cases hcut : Text.cutLast? '.' id.name with
  | none =>
    rw [hcut] at h
    cases h
  | some cut =>
    rw [hcut] at h
    rw [(Text.eq_of_cutLast? hcut).1]
    exact List.mem_append_left _ h

end MemberId

theorem mem_of_mem_segmentBeforeList {name : Text} (h : c ∈ segmentBeforeList name) : c ∈ name := by
  unfold segmentBeforeList at h
  rcases List.mem_append.1 h with h | h
  · exact (List.takeWhile_sublist _).subset (Text.mem_of_mem_afterLast h)
  · exact (List.dropWhile_sublist _).subset h

theorem not_mem_parameterList {types names : List Text} (assembly : Text)
    (htypes : ∀ type ∈ types, '\n' ∉ type) (hnames : ∀ name ∈ names, '\n' ∉ name) :
    '\n' ∉ parameterList assembly types names := by
  refine Text.not_mem_joinWith (by decide) ?_
  intro text ht h
  rcases mem_of_mem_parameterTexts (by decide) ht h with ⟨type, hin, hmem⟩ | ⟨name, hin, hmem⟩
  · exact htypes type hin hmem
  · exact hnames name hin hmem

theorem MemberId.not_mem_display {raw : Text} {id : MemberId} (hid : parse? raw = some id)
    (hraw : '\n' ∉ raw) {names : List Text} (hnames : ∀ name ∈ names, '\n' ∉ name) (assembly : Text)
    (inMember : Bool) : '\n' ∉ id.display assembly inMember names := by
  unfold display
  extract_lets isMethod bare name listed
  have hbare : '\n' ∉ bare := fun h => hraw (mem_of_mem_name hid (mem_of_mem_dropConstructorMarkers h))
  have hname : '\n' ∉ name := by
    intro h
    have hin := mem_of_mem_stripArityFrom h
    split at hin
    · exact hbare (Text.mem_of_mem_afterLast hin)
    · exact hbare hin
  have hlist : '\n' ∉ parameterList assembly (id.params.getD []) names :=
    not_mem_parameterList assembly
      (fun _ hp h => hraw (mem_of_mem_params hid (by decide) hp h)) hnames
  have hlisted : '\n' ∉ listed := by
    unfold listed
    split
    · simp [hname, hlist]
    · split
      · simp [hname]
      · exact hname
  split
  · exact fun h => hlisted (mem_of_mem_segmentBeforeList h)
  · exact hlisted

theorem Node.eq_toNode_of_element? {n : Node} {e : Element} (h : n.element? = some e) : n = e.toNode := by
  cases n with
  | text => cases h
  | element tag children =>
    cases h
    rfl

namespace Node

theorem tags_subset {n : Node} {tag : StartTag} {children : List Node} (h : n ∈ children) :
    n.tags ⊆ (element tag children).tags := by
  rw [tags, tagsAll_eq_flatMap]
  exact fun t ht => List.mem_cons_of_mem tag (List.mem_flatMap.2 ⟨n, h, ht⟩)

def Unbroken (n : Node) : Prop :=
  ∀ tag ∈ n.tags, ∀ a ∈ tag.attributes, '\n' ∉ a.2

theorem Unbroken.below {n : Node} {tag : StartTag} {children : List Node}
    (h : (element tag children).Unbroken) (hn : n ∈ children) : n.Unbroken :=
  fun t ht => h t (tags_subset hn ht)

end Node

namespace Element

variable {e : Element}

def Unbroken (e : Element) : Prop :=
  e.toNode.Unbroken

theorem Unbroken.attr? (h : e.Unbroken) {key value : Text} (hv : e.attr? key = some value) :
    '\n' ∉ value := by
  rw [Element.attr?, List.lookup_eq_some_iff] at hv
  obtain ⟨front, back, hattributes, -⟩ := hv
  refine h e.tag List.mem_cons_self (key, value) ?_
  rw [hattributes]
  exact List.mem_append_right front List.mem_cons_self

theorem Unbroken.getD (h : e.Unbroken) (key : Text) : '\n' ∉ (e.attr? key).getD [] := by
  cases hv : e.attr? key with
  | none => exact List.not_mem_nil
  | some value => exact h.attr? hv

theorem Unbroken.child (h : e.Unbroken) {child : Element} (hc : child ∈ e.elements) :
    child.Unbroken := by
  obtain ⟨n, hn, hchild⟩ := List.mem_filterMap.1 hc
  rw [Unbroken, ← Node.eq_toNode_of_element? hchild]
  exact Node.Unbroken.below h hn

theorem Unbroken.parameterNames (h : e.Unbroken) : ∀ name ∈ parameterNames e, '\n' ∉ name := by
  intro name hname
  obtain ⟨param, hparam, rfl⟩ := List.mem_map.1 hname
  exact (h.child (List.mem_filter.1 hparam).1).getD "name"

theorem Unbroken.displayName (h : e.Unbroken) (assembly : Text) : '\n' ∉ displayName assembly e := by
  unfold Docmark.displayName
  cases hraw : e.attr? "name" with
  | none => exact List.not_mem_nil
  | some raw =>
    dsimp only
    cases hid : MemberId.parse? raw with
    | none => exact h.attr? hraw
    | some id => exact MemberId.not_mem_display hid (h.attr? hraw) h.parameterNames assembly _

end Element

theorem Content.not_mem_inlineText (e : Element) : '\n' ∉ inlineText e :=
  fun h => Text.not_mem_collapse rfl (by decide) e.textContent (Text.mem_of_mem_trim h)

theorem not_mem_nameAnchor {name : Text} (h : '\n' ∉ name) : '\n' ∉ nameAnchor name :=
  fun hin => h (List.mem_of_mem_filter
    (Text.mem_of_mem_lowerAfter (by decide) (by decide) hin))

theorem Text.not_mem_slug (t : Text) : '\n' ∉ slug t := by
  intro h
  rcases mem_slug h with h | h
  · exact absurd h (by decide)
  · exact absurd h (by decide)

structure Context.Unbroken (ctx : Context) : Prop where
  assembly : '\n' ∉ ctx.assembly
  members : ∀ m ∈ ctx.members, m.Unbroken

namespace Link

variable {ctx : Context}

theorem not_mem_targetOf {assembly anchor : Text} (hassembly : '\n' ∉ assembly)
    (hanchor : '\n' ∉ anchor) : '\n' ∉ targetOf ctx assembly anchor := by
  unfold targetOf
  split
  · simp [hanchor]
  · simp [hassembly, hanchor]

theorem not_mem_displayOf (hctx : ctx.Unbroken) {raw : Text} {id : MemberId}
    (hid : MemberId.parse? raw = some id) (hraw : '\n' ∉ raw) : '\n' ∉ displayOf ctx id := by
  have hname : '\n' ∉ id.name := fun h => hraw (MemberId.mem_of_mem_name hid h)
  have hmember : '\n' ∉ id.memberName := fun h => hname (Text.mem_of_mem_afterLast h)
  have hdeclaring : '\n' ∉ id.declaringType := fun h => hname (MemberId.mem_of_mem_declaringType h)
  unfold displayOf
  split
  · cases hfound : ctx.members.get? id.raw with
    | some member =>
      have hin : member ∈ ctx.members := List.mem_reverse.1 (List.mem_of_find?_eq_some hfound)
      exact (hctx.members member hin).displayName ctx.assembly
    | none =>
      have htypes : '\n' ∉ Text.joinWith ", " ((id.params.getD []).map (typeText ctx.assembly)) := by
        refine Text.not_mem_joinWith (by decide) (List.forall_mem_map.2 ?_)
        intro type htype h
        exact hraw (MemberId.mem_of_mem_params hid (by decide) htype
          (mem_of_mem_typeText (by decide) h))
      have hbase : '\n' ∉ stripArity
          (if id.isConstructor then lastSegment id.declaringType else id.memberName) := by
        intro h
        have hin := mem_of_mem_stripArityFrom h
        split at hin
        · exact hdeclaring (Text.mem_of_mem_afterLast hin)
        · exact hmember hin
      simpa [methodText, hbase] using htypes
  · exact fun h => hmember (mem_of_mem_stripArityFrom h)

theorem not_mem_anchorOf {raw : Text} {id : MemberId} (hid : MemberId.parse? raw = some id)
    (hraw : '\n' ∉ raw) : '\n' ∉ anchorOf ctx id := by
  have hname : '\n' ∉ stripArity id.name :=
    fun h => hraw (MemberId.mem_of_mem_name hid (mem_of_mem_stripArityFrom h))
  unfold anchorOf
  split
  · exact Text.not_mem_slug _
  · apply not_mem_nameAnchor
    split
    · exact hname
    · exact fun h => hname (mem_of_mem_stripNamespace h)

theorem not_mem_assemblyOf (hctx : ctx.Unbroken) {raw : Text} {id : MemberId}
    (hid : MemberId.parse? raw = some id) (hraw : '\n' ∉ raw) : '\n' ∉ assemblyOf ctx id := by
  unfold assemblyOf
  dsimp only
  split
  · exact fun h => hraw (MemberId.mem_of_mem_name hid (MemberId.mem_of_mem_declaringType h))
  · exact hctx.assembly

theorem not_mem_ofCref (hctx : ctx.Unbroken) {cref : Text} (h : '\n' ∉ cref) :
    '\n' ∉ (ofCref ctx cref).display ∧ '\n' ∉ (ofCref ctx cref).target := by
  unfold ofCref
  cases hid : MemberId.parse? cref with
  | none =>
    refine ⟨?_, not_mem_targetOf hctx.assembly (Text.not_mem_slug _)⟩
    exact fun hin => h (mem_of_mem_dropOpening
      (Text.mem_of_mem_afterLast (mem_of_mem_stripArityFrom hin)))
  | some id => exact ⟨not_mem_displayOf hctx hid h,
      not_mem_targetOf (not_mem_assemblyOf hctx hid h) (not_mem_anchorOf hid h)⟩

end Link

namespace TypeDescriptor

variable {d : TypeDescriptor}

structure Unbroken (d : TypeDescriptor) : Prop where
  name : '\n' ∉ d.name
  namespaceName : '\n' ∉ d.namespaceName
  assembly : ∀ a ∈ d.assembly, '\n' ∉ a
  arguments : ∀ a ∈ d.arguments, '\n' ∉ a.name

theorem mem_of_mem_dropPairs {t : Text} (h : c ∈ dropPairs t) : c ∈ t := by
  induction t using dropPairs.induct with
  | case1 rest ih =>
    rw [dropPairs] at h
    exact List.mem_cons_of_mem _ (List.mem_cons_of_mem _ (ih h))
  | case2 t hpairs => rwa [dropPairs.eq_2 t hpairs] at h

theorem mem_of_mem_simpleName (h : c ∈ d.simpleName) : c ∈ d.name := by
  have hpairs : c ∈ (dropPairs d.name.reverse).reverse := (List.takeWhile_sublist _).subset h
  exact List.mem_reverse.1 (mem_of_mem_dropPairs (List.mem_reverse.1 hpairs))

theorem not_mem_keyword {word : Text} (h : d.keyword? = some word) : '\n' ∉ word := by
  rw [keyword?, Option.ite_none_right_eq_some] at h
  intro hin
  exact absurd ((isAlphanum_of_keywordOf? h.2).2 _ hin) (by decide)

theorem not_mem_brackets (d : TypeDescriptor) : '\n' ∉ d.brackets := by
  unfold brackets
  split <;> decide

theorem not_mem_shortName (h : '\n' ∉ d.name) : '\n' ∉ d.shortName := by
  unfold shortName
  cases hword : d.keyword? with
  | some word => exact not_mem_keyword hword
  | none => exact fun hin => h (mem_of_mem_simpleName hin)

theorem Unbroken.target (h : d.Unbroken) {ctx : Context} (hassembly : '\n' ∉ ctx.assembly) :
    '\n' ∉ d.target ctx := by
  have hsimple : '\n' ∉ d.simpleName := fun hin => h.name (mem_of_mem_simpleName hin)
  have hfull : '\n' ∉ d.fullName := by
    unfold fullName
    split
    · exact hsimple
    · simp [h.namespaceName, hsimple]
  have howner : '\n' ∉ d.assembly.getD ctx.assembly := by
    cases hd : d.assembly with
    | none => exact hassembly
    | some assembly => exact h.assembly assembly hd
  unfold TypeDescriptor.target
  split
  · have hlower : '\n' ∉ Text.lower d.simpleName :=
      fun hin => hsimple (Text.mem_of_mem_lowerAfter (by decide) (by decide) hin)
    simp [hlower]
  · have hanchor : '\n' ∉ nameAnchor (stripNamespace (d.assembly.getD ctx.assembly) d.fullName) :=
      not_mem_nameAnchor fun hin => hfull (mem_of_mem_stripNamespace hin)
    simp [howner, hanchor]

theorem Unbroken.cell (h : d.Unbroken) {ctx : Context} (hassembly : '\n' ∉ ctx.assembly) :
    '\n' ∉ d.cell ctx := by
  have hsimple : '\n' ∉ d.simpleName := fun hin => h.name (mem_of_mem_simpleName hin)
  unfold TypeDescriptor.cell
  cases hword : d.keyword? with
  | some word => simp [not_mem_keyword hword, d.not_mem_brackets]
  | none =>
    dsimp only
    split
    · have harguments : '\n' ∉ Text.joinWith ", " (d.arguments.map shortName) :=
        Text.not_mem_joinWith (by decide)
          (List.forall_mem_map.2 fun a ha => not_mem_shortName (h.arguments a ha))
      simpa [hsimple, d.not_mem_brackets] using harguments
    · simp [hsimple, h.target hassembly, d.not_mem_brackets]

end TypeDescriptor

end Docmark
