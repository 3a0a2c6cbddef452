import Docmark.Proofs.BaseNames
import Docmark.Proofs.Casing

/-!
Anchors of headings against anchors that links make out of names. The two agree just when the heading
has nothing in it that its name alone does not show.
-/

namespace Docmark

def isAnchorChar (c : Char) : Bool :=
  isAlphanumeric c || c == '-' || c == '_'

theorem not_isAlphanumeric_of_not_isAnchorChar {c : Char} (h : isAnchorChar c = false) :
    isAlphanumeric c = false := by
  rw [isAnchorChar, Bool.or_eq_false_iff, Bool.or_eq_false_iff] at h
  exact h.1.1

theorem lowerChar_of_isAnchorChar {c : Char} (h : isAnchorChar c = true) :
    ∃ d ds, lowerChar c = d :: ds ∧ isAnchorChar d = true ∧ ∀ x ∈ ds, x = dotAbove := by
  cases hc : isAlphanumeric c with
  | true =>
    obtain ⟨d, ds, hlower, hd, hds⟩ := lowerChar_of_isAlphanumeric hc
    exact ⟨d, ds, hlower, by rw [isAnchorChar, hd]; rfl, hds⟩
  | false => exact ⟨c, [], lowerChar_of_not_isAlphanumeric hc, h, fun x hx => absurd hx List.not_mem_nil⟩

theorem not_isBlank_of_isAnchorChar {c : Char} (h : isAnchorChar c = true) : isBlank c = false := by
  rw [isAnchorChar, Bool.or_eq_true, Bool.or_eq_true, beq_iff_eq, beq_iff_eq] at h
  rcases h with (h | rfl) | rfl
  · exact not_isBlank_of_isAlphanumeric h
  · rfl
  · rfl

namespace Text

theorem anchorChar?_of_isAnchorChar {c : Char} (h : isAnchorChar c = true) :
    anchorChar? c = some c := by
  have hc : c ≠ ' ' := by
    rintro rfl
    exact absurd (not_isBlank_of_isAnchorChar h) (by decide)
  rw [anchorChar?, if_neg hc]
  exact if_pos h

theorem isAnchorChar_of_anchorChar? {c d : Char} (h : anchorChar? c = some d) :
    isAnchorChar d = true := by
  unfold anchorChar? at h
  split at h
  · cases h
    rfl
  · split at h
    · next hc =>
      cases h
      exact hc
    · cases h

theorem anchorChar?_of_not {c : Char} (hs : c ≠ ' ') (h : isAnchorChar c = false) :
    anchorChar? c = none := by
  rw [anchorChar?, if_neg hs]
  exact if_neg (by rw [← isAnchorChar, h]; decide)

theorem all_isAnchorChar_filterMap (t : Text) : ∀ c ∈ t.filterMap anchorChar?, isAnchorChar c = true := by
  intro c hc
  obtain ⟨d, -, hd⟩ := List.mem_filterMap.1 hc
  exact isAnchorChar_of_anchorChar? hd

theorem mem_slug {t : Text} {x : Char} (h : x ∈ slug t) : isAnchorChar x = true ∨ x = dotAbove := by
  obtain ⟨c, hc, hx⟩ := List.mem_flatMap.1 h
  obtain ⟨d, ds, hlower, hd, hds⟩ := lowerChar_of_isAnchorChar (all_isAnchorChar_filterMap _ c hc)
  rw [hlower] at hx
  rcases List.mem_cons.1 hx with rfl | hx
  · exact Or.inl hd
  · exact Or.inr (hds x hx)

theorem eq_of_lowerAfter {t more : Text} (hmore : ∀ c ∈ more, isAnchorChar c = true) {before : Text}
    (h : lowerAfter before t = (t.filter isAnchorChar ++ more).flatMap lowerChar) :
    (∀ c ∈ t, isAnchorChar c = true) ∧ lowerAfter before t = t.flatMap lowerChar ∧ more = [] := by
  -- Each character of a text lowers to as many as it does by itself, so a text that lowers to what
  -- is kept of it, and more, has nothing that is not kept: such a character stays itself in front,
  -- where the kept ones behind it start with one that can be kept.
  induction t generalizing before with
  | nil =>
    refine ⟨fun c hc => absurd hc List.not_mem_nil, rfl, ?_⟩
    cases more with
    | nil => rfl
    | cons d more =>
      obtain ⟨x, xs, hx, -⟩ := lowerChar_of_isAnchorChar (hmore d List.mem_cons_self)
      rw [List.filter_nil, List.nil_append, List.flatMap_cons, hx] at h
      cases h
  | cons c t ih =>
    obtain ⟨form, hform, hlength, hsame⟩ := lowerAfter_cons before c t
    rw [hform] at h ⊢
    cases hc : isAnchorChar c with
    | true =>
      rw [List.filter_cons_of_pos hc, List.cons_append, List.flatMap_cons] at h
      obtain ⟨hfirst, hrest⟩ := List.append_inj h hlength
      obtain ⟨hall, hlower, hnil⟩ := ih hrest
      refine ⟨?_, by rw [hfirst, hlower, List.flatMap_cons], hnil⟩
      intro d hd
      rcases List.mem_cons.1 hd with rfl | hd
      · exact hc
      · exact hall d hd
    | false =>
      exfalso
      rw [hsame (not_isAlphanumeric_of_not_isAnchorChar hc),
        List.filter_cons_of_neg (by rw [hc]; decide)] at h
      cases hkept : t.filter isAnchorChar ++ more with
      | nil =>
        rw [hkept] at h
        cases h
      | cons k kept =>
        have hk : isAnchorChar k = true := by
          have hmem : k ∈ t.filter isAnchorChar ++ more := hkept ▸ List.mem_cons_self
          rcases List.mem_append.1 hmem with hk | hk
          · exact (List.mem_filter.1 hk).2
          · exact hmore k hk
        obtain ⟨x, xs, hx, hanchor, -⟩ := lowerChar_of_isAnchorChar hk
        rw [hkept, List.flatMap_cons, hx] at h
        rw [List.singleton_append, List.cons_append, List.cons.injEq] at h
        rw [h.1, hanchor] at hc
        cases hc

end Text

theorem mem_stripArityFrom {t : Text} {c : Char} (hc : c ∈ t) (hm : c ≠ '\x60')
    (hd : c.isDigit = false) (inMarker : Bool) : c ∈ stripArityFrom inMarker t := by
  induction t generalizing inMarker with
  | nil => cases hc
  | cons d t ih =>
    rw [stripArityFrom]
    rcases List.mem_cons.1 hc with rfl | hc
    · rw [if_neg hm, if_neg (by simp [hd])]
      exact List.mem_cons_self
    · split
      · exact ih hc true
      · split
        · exact ih hc true
        · exact List.mem_cons_of_mem _ (ih hc false)

theorem stripArity_dropConstructorMarkers {name : Text} (h : '#' ∉ stripArity name) :
    stripArity (dropConstructorMarkers name) = stripArity name := by
  rw [dropConstructorMarkers_eq_self]
  intro hin
  have hmem : '#' ∈ constructorEnding := by decide
  exact h (mem_stripArityFrom (hin.subset hmem) (by decide) rfl false)

def Element.listed (assembly : Text) (id : MemberId) (e : Element) : Text :=
  if (parameterNames e).isEmpty then []
  else '(' :: (parameterList assembly (id.params.getD []) (parameterNames e) ++ [')'])

theorem displayName_of_type_or_event {e : Element} {raw : Text} {id : MemberId}
    (hname : e.attr? "name" = some raw) (hid : MemberId.parse? raw = some id)
    (hk : id.kind = .type ∨ id.kind = .event) (assembly : Text) :
    displayName assembly e =
      stripArity (dropConstructorMarkers id.name) ++ e.listed assembly id := by
  have hmethod : (id.kind == .method) = false := by
    rcases hk with hk | hk <;> rw [hk] <;> rfl
  have hsegment : (id.kind == .property || id.kind == .field) = false := by
    rcases hk with hk | hk <;> rw [hk] <;> rfl
  rw [displayName_eq_display hname hid]
  simp only [MemberId.display, hmethod, hsegment, Bool.and_false, Bool.false_eq_true, if_false,
    Element.listed]
  cases hempty : (parameterNames e).isEmpty with
  | true => simp
  | false => simp

theorem filterMap_listed (assembly : Text) (id : MemberId) (e : Element) :
    (e.listed assembly id).filterMap Text.anchorChar? =
      (parameterList assembly (id.params.getD []) (parameterNames e)).filterMap Text.anchorChar? := by
  rw [Element.listed]
  cases hnames : parameterNames e with
  | nil =>
    rw [parameterList_nil]
    rfl
  | cons name names =>
    have hopen : Text.anchorChar? '(' = none := by decide
    have hclose : Text.anchorChar? ')' = none := by decide
    rw [List.isEmpty_cons, if_neg Bool.false_ne_true, List.filterMap_cons_none hopen,
      List.filterMap_append, List.filterMap_cons_none hclose, List.filterMap_nil, List.append_nil]

theorem listed_ends (assembly : Text) (id : MemberId) (e : Element) :
    (∀ c ∈ (e.listed assembly id).head?, isBlank c = false) ∧
      ∀ c ∈ (e.listed assembly id).getLast?, isBlank c = false := by
  rw [Element.listed]
  by_cases hnames : (parameterNames e).isEmpty = true
  · rw [if_pos hnames]
    exact ⟨by rintro c ⟨⟩, by rintro c ⟨⟩⟩
  · rw [if_neg hnames, ← List.cons_append, List.getLast?_concat]
    constructor
    · rintro c ⟨⟩
      rfl
    · rintro c ⟨⟩
      rfl

section

variable {name bare listed : Text}

theorem slug_append (hname : ∀ c ∈ name, c = '.' ∨ isAnchorChar c = true ∨ c = dotAbove)
    (hf : ∀ c ∈ listed.head?, isBlank c = false) (hl : ∀ c ∈ listed.getLast?, isBlank c = false) :
    Text.slug (name ++ listed) =
      (name.filter isAnchorChar ++ listed.filterMap Text.anchorChar?).flatMap lowerChar := by
  have hblank : ∀ c ∈ name, isBlank c = false := by
    intro c hc
    rcases hname c hc with rfl | hanchor | rfl
    · rfl
    · exact not_isBlank_of_isAnchorChar hanchor
    · rfl
  have htrim : Text.trim (name ++ listed) = name ++ listed := by
    apply Text.trim_eq_self
    · intro c hc
      rw [List.head?_append] at hc
      cases hn : name.head? with
      | none =>
        rw [hn] at hc
        exact hf c hc
      | some d =>
        rw [hn] at hc
        cases hc
        exact hblank c (List.mem_of_head? hn)
    · intro c hc
      rw [List.getLast?_append] at hc
      cases hn : listed.getLast? with
      | none =>
        rw [hn] at hc
        exact hblank c (List.mem_of_getLast? hc)
      | some d =>
        rw [hn] at hc
        cases hc
        exact hl c hn
  have hkept : name.filterMap Text.anchorChar? = name.filter isAnchorChar := by
    rw [← List.filterMap_eq_filter]
    apply List.filterMap_congr
    intro c hc
    rw [Option.guard]
    cases hanchor : isAnchorChar c with
    | true => exact Text.anchorChar?_of_isAnchorChar hanchor
    | false =>
      have hspace : c ≠ ' ' := by
        rintro rfl
        exact absurd (hblank ' ' hc) (by decide)
      exact Text.anchorChar?_of_not hspace hanchor
  rw [Text.slug, htrim, List.filterMap_append, hkept]

theorem slug_heading (hbare : '#' ∉ name → bare = name)
    (hname : ∀ c ∈ name, c = '.' ∨ isAnchorChar c = true ∨ c = dotAbove)
    (hf : ∀ c ∈ listed.head?, isBlank c = false) (hl : ∀ c ∈ listed.getLast?, isBlank c = false) :
    Text.slug (bare ++ listed) = ((name.filter (· != '.')).filter isAnchorChar ++
      listed.filterMap Text.anchorChar?).flatMap lowerChar := by
  have hmarker : '#' ∉ name := by
    intro hc
    rcases hname '#' hc with h | h | h
    · exact absurd h (by decide)
    · exact absurd h (by decide)
    · exact absurd h (by decide)
  have hdot : isAnchorChar '.' = false := by decide
  have hplain : name.filter isAnchorChar = (name.filter (· != '.')).filter isAnchorChar := by
    rw [List.filter_filter]
    apply List.filter_congr
    intro c _
    by_cases hc : c = '.'
    · rw [hc, hdot]
      rfl
    · simp [hc]
  rw [hbare hmarker, slug_append hname hf hl, hplain]

theorem nameAnchor_eq_slug_iff (hbare : '#' ∉ name → bare = name)
    (hf : ∀ c ∈ listed.head?, isBlank c = false) (hl : ∀ c ∈ listed.getLast?, isBlank c = false) :
    nameAnchor name = Text.slug (bare ++ listed) ↔
      (∀ c ∈ name, c = '.' ∨ isAnchorChar c = true) ∧
      nameAnchor name = (name.filter (· != '.')).flatMap lowerChar ∧
      listed.filterMap Text.anchorChar? = [] := by
  have hmem {c : Char} (hc : c ∈ name) (hne : c ≠ '.') : c ∈ name.filter (· != '.') :=
    List.mem_filter.2 ⟨hc, by simpa using hne⟩
  constructor
  · intro h
    have hname : ∀ c ∈ name, c = '.' ∨ isAnchorChar c = true ∨ c = dotAbove := by
      intro c hc
      by_cases hne : c = '.'
      · exact Or.inl hne
      · cases hanchor : isAnchorChar c with
        | true => exact Or.inr (Or.inl rfl)
        | false =>
          -- Such a character is not changed by lowering, and the anchor of a heading never has it.
          have hout := not_isAlphanumeric_of_not_isAnchorChar hanchor
          have hslug : c ∈ Text.slug (bare ++ listed) :=
            h ▸ Text.mem_lowerAfter hout (hmem hc hne) []
          rw [← hanchor]
          exact Or.inr (Text.mem_slug hslug)
    rw [slug_heading hbare hname hf hl] at h
    obtain ⟨hall, hlower, hnil⟩ :=
      Text.eq_of_lowerAfter (Text.all_isAnchorChar_filterMap listed) h
    refine ⟨?_, hlower, hnil⟩
    intro c hc
    by_cases hne : c = '.'
    · exact Or.inl hne
    · exact Or.inr (hall c (hmem hc hne))
  · rintro ⟨hname, hlower, hnil⟩
    have hall : (name.filter (· != '.')).filter isAnchorChar = name.filter (· != '.') := by
      rw [List.filter_eq_self]
      intro c hc
      obtain ⟨hc, hne⟩ := List.mem_filter.1 hc
      exact (hname c hc).resolve_left (by simpa using hne)
    have hwide : ∀ c ∈ name, c = '.' ∨ isAnchorChar c = true ∨ c = dotAbove :=
      fun c hc => (hname c hc).imp_right Or.inl
    rw [slug_heading hbare hwide hf hl, hall, hnil, List.append_nil, hlower]

end

namespace Document

/-- On a single page the link to a type or an event leads to its heading just when the identifier
shows all that the anchor of the heading keeps. -/
theorem type_links_reach_headings_iff {d : Document} {ctx : Context} {raw : Text} {id : MemberId}
    {e : Element} (hid : MemberId.parse? raw = some id)
    (hk : id.kind = .type ∨ id.kind = .event)
    (he : d.members.filter (fun m => m.attr? "name" = some raw) = [e])
    (hs : ctx.options.layout = .singlePage) :
    let heading := displayName ctx.assembly e
    let name := stripArity id.name
    let plain := name.filter (· != '.')
    let listed := parameterList ctx.assembly (id.params.getD []) (parameterNames e)
    ((Link.ofCref ctx raw).target = "#" ++ Text.slug heading ↔
      (∀ c ∈ name, c = '.' ∨ isAnchorChar c = true) ∧
      Text.lower plain = plain.flatMap lowerChar ∧
      listed.filterMap Text.anchorChar? = []) ∧
    (ctx.isHidden e = false → ∀ s, ∃ opening marks gap, id.kind.headed? = some (marks, gap) ∧
      (e.toNode.render s ctx).result =
        (e.parts.body { ctx with member := some e }).result.map fun body =>
          opening ++ (marks ++ (heading ++ (gap ++ (body ++ "\n"))))) := by
  intro heading name plain listed
  obtain ⟨hmember, hname⟩ := mem_members_of_filter he
  constructor
  · have hmethod : id.kind ≠ .method := by
      rcases hk with hk | hk <;> rw [hk] <;> decide
    have hpage : ctx.isSinglePage = true := by
      rw [Context.isSinglePage, hs]
      rfl
    have htarget : (Link.ofCref ctx raw).target = "#" ++ nameAnchor name := by
      rw [Link.ofCref_of_parse? hid, Link.anchorOf, if_neg hmethod, Link.targetOf, if_pos hpage]
      simp only [hpage, if_true]
      rfl
    have hheading : heading = stripArity (dropConstructorMarkers id.name) ++ e.listed ctx.assembly id :=
      displayName_of_type_or_event hname hid hk ctx.assembly
    obtain ⟨hf, hl⟩ := listed_ends ctx.assembly id e
    rw [htarget, hheading, List.append_cancel_left_eq,
      nameAnchor_eq_slug_iff stripArity_dropConstructorMarkers hf hl, filterMap_listed]
    rfl
  · intro hv s
    obtain ⟨marks, gap, hheaded⟩ : ∃ marks gap, id.kind.headed? = some (marks, gap) := by
      rcases hk with hk | hk <;> rw [hk] <;> exact ⟨_, _, rfl⟩
    obtain ⟨opening, hsection⟩ := Node.result_render_headed hmember hname hid hheaded hv s
    exact ⟨opening, marks, gap, hheaded, hsection⟩

def handlerDocument : Document :=
  ⟨⟨⟨"doc", [], ⟨1, 1⟩⟩,
    [.element ⟨"members", [], ⟨2, 2⟩⟩
      [.element ⟨"member", [("name", "T:Foo.Handler")], ⟨3, 5⟩⟩
        [.element ⟨"param", [("name", "sender")], ⟨4, 7⟩⟩ []]]]⟩⟩

theorem type_links_reach_headings_iff_handler :
    let d := handlerDocument
    let ctx : Context := ⟨"Foo", ⟨.error, .singlePage⟩, .unknown, d.members, none⟩
    ∃ id e, MemberId.parse? "T:Foo.Handler" = some id ∧ id.kind = .type ∧
      d.members.filter (fun m => m.attr? "name" = some "T:Foo.Handler".toList) = [e] ∧
      ctx.options.layout = .singlePage ∧ ctx.isHidden e = false ∧
      displayName ctx.assembly e = "Foo.Handler(sender)" ∧
      (Link.ofCref ctx "T:Foo.Handler").target = "#foohandler" ∧
      (Link.ofCref ctx "T:Foo.Handler").target ≠ "#" ++ Text.slug (displayName ctx.assembly e) := by
  intro d ctx
  let id : MemberId := ⟨.type, "Foo.Handler", none, "T:Foo.Handler"⟩
  have hid : MemberId.parse? "T:Foo.Handler" = some id := by decide
  have he : d.members.filter (fun m => m.attr? "name" = some "T:Foo.Handler".toList) =
      [d.members[0]] := rfl
  have hs : ctx.options.layout = .singlePage := rfl
  obtain ⟨hiff, -⟩ := type_links_reach_headings_iff hid (Or.inl rfl) he hs
  refine ⟨id, _, hid, rfl, he, hs, rfl, by decide, by decide, ?_⟩
  intro htarget
  obtain ⟨-, -, hnothing⟩ := hiff.1 htarget
  have hlisted : parameterList ctx.assembly (id.params.getD []) (parameterNames d.members[0]) =
      "sender" := rfl
  rw [hlisted] at hnothing
  exact absurd hnothing (by decide)

end Document
end Docmark
