import Mathlib.Control.Monad.Basic
import Docmark.Page.Walk

/-!
The sections of the members on a page: one for each member, with a heading where a run of members
of one kind begins.
-/

namespace Docmark

namespace Element

def kind? (e : Element) : Option Kind :=
  (e.attr? "name").bind Kind.ofOpening?

/-- Whether the name carries the mark of constructors. Parameters do not count where they can be told
apart. -/
def isMarked (e : Element) : Bool :=
  match e.attr? "name" with
  | none => false
  | some raw =>
    match MemberId.parse? raw with
    | some id => id.isConstructor
    | none => Text.holds constructorMarker raw

def continues (e : Element) (previous : Option Element) : Bool :=
  previous.any fun p =>
    match e.kind? with
    | some .method => if e.isMarked then p.isMarked else p.kind? == some .method && !p.isMarked
    | kind => p.kind? == kind

def sectionKey (e : Element) (previous : Option Element) : Key :=
  let first := !e.continues previous
  match e.kind?, e.attr? "name" with
  | some .type, _ => .type
  | some .method, _ => if e.isMarked then .constructor first else .method first
  | some .property, _ => .property first
  | some .field, _ => .field first
  | some .event, _ => .event first
  | some .scope, _ => .nothing
  | none, some raw => if raw.tail.head? = some ':' then .nothing else .type
  | none, none => .nothing

def run? (e : Element) : Option Run :=
  (e.attr? "name").bind Run.of?

theorem run?_eq (e : Element) : e.run? = e.kind?.map (⟨·, e.isMarked⟩) := by
  unfold run? kind? isMarked
  cases e.attr? "name" with
  | none => rfl
  | some raw =>
    simp only [Option.bind_some, Run.of?]
    cases hp : MemberId.parse? raw with
    | none => rfl
    | some id => simp only [MemberId.kind_of_parse? hp, Option.map_some]

theorem ofMember_eq_sectionKey (e : Element) {previous : Option Element}
    (hp : ∀ p ∈ previous, p.kind?.isSome) :
    Key.ofMember (previous.bind run?) (e.attr? "name") = e.sectionKey previous := by
  unfold Key.ofMember sectionKey
  cases hname : e.attr? "name" with
  | none =>
    have hkind : e.kind? = none := by rw [kind?, hname, Option.bind_none]
    rw [hkind]
  | some raw =>
    have hrun : Run.of? raw = e.kind?.map (⟨·, e.isMarked⟩) := by
      rw [← run?_eq, run?, hname, Option.bind_some]
    dsimp only
    rw [hrun]
    cases hkind : e.kind? with
    | none => rfl
    | some kind =>
      cases previous with
      | none => cases kind <;> rfl
      | some p =>
        obtain ⟨k, hk⟩ := Option.isSome_iff_exists.1 (hp p rfl)
        simp only [continues, hkind, Option.bind_some, p.run?_eq, hk, Option.map_some, Option.any_some]
        cases kind with
        | method => by_cases hm : e.isMarked = true <;> simp [hm]
        | type | property | field | event | scope => simp

end Element

namespace Outcome

def concat : List (Outcome Text) → Outcome Text
  | [] => return []
  | x :: xs => do return (← x) ++ (← concat xs)

theorem concat_cons_ok_nil (xs : List (Outcome Text)) : concat (ok [] :: xs) = concat xs := by
  simp only [concat, ok_bind, List.nil_append, pure_eq_ok]
  cases hx : (concat xs).result with
  | error u => rw [bind_result_error hx, ← hx]
  | ok text =>
    rw [bind_result_ok hx]
    simp only [withWarnings, ok, List.append_nil, ← hx]

theorem eq_flatten_of_concat {xs : List (Outcome Text)} {out : Text}
    (h : (concat xs).result = .ok out) :
    ∃ texts : List Text, xs.map (·.result) = texts.map .ok ∧ out = texts.flatten := by
  induction xs generalizing out with
  | nil =>
    refine ⟨[], rfl, ?_⟩
    simpa [concat, ok] using h.symm
  | cons x xs ih =>
    simp only [concat, pure_eq_ok] at h
    cases hx : x.result with
    | error u =>
      rw [bind_result_error hx] at h
      cases h
    | ok text =>
      rw [bind_result_ok hx] at h
      cases hxs : (concat xs).result with
      | error u =>
        rw [bind_result_error hxs] at h
        cases h
      | ok rest =>
        rw [bind_result_ok hxs] at h
        obtain ⟨texts, hs, rfl⟩ := ih hxs
        refine ⟨text :: texts, by simp [hx, hs], ?_⟩
        simpa [withWarnings, ok] using h.symm

end Outcome

namespace Context

def predecessor? (ctx : Context) (earlier : List Element) : Option Element :=
  earlier.reverse.find? fun e => !ctx.isHidden e && e.kind?.isSome

def sectionOf (ctx : Context) (earlier : List Element) (e : Element) : Outcome Text :=
  if ctx.isHidden e then return []
  else
    let key := e.sectionKey (ctx.predecessor? earlier)
    key.rule.apply e e.parts (ctx.under key e)

def sectionsFrom (ctx : Context) (earlier : List Element) : List Element → List (Outcome Text)
  | [] => []
  | e :: more => ctx.sectionOf earlier e :: ctx.sectionsFrom (earlier ++ [e]) more

theorem predecessor?_append_singleton (ctx : Context) (earlier : List Element) (e : Element) :
    ctx.predecessor? (earlier ++ [e]) =
      if !ctx.isHidden e && e.kind?.isSome then some e else ctx.predecessor? earlier := by
  simp only [predecessor?, List.reverse_append, List.reverse_singleton, List.singleton_append,
    List.find?_cons]
  cases (!ctx.isHidden e && e.kind?.isSome) <;> rfl

theorem isSome_kind?_of_predecessor? {ctx : Context} {earlier : List Element} :
    ∀ p ∈ ctx.predecessor? earlier, p.kind?.isSome := by
  intro p hp
  have := List.find?_some hp
  simp only [Bool.and_eq_true] at this
  exact this.2

theorem length_sectionsFrom (ctx : Context) (members earlier : List Element) :
    (ctx.sectionsFrom earlier members).length = members.length := by
  induction members generalizing earlier with
  | nil => rfl
  | cons e more ih => rw [sectionsFrom, List.length_cons, ih, List.length_cons]

theorem getElem?_sectionsFrom (ctx : Context) (members earlier : List Element) (i : Nat) :
    (ctx.sectionsFrom earlier members)[i]? =
      members[i]?.map (ctx.sectionOf (earlier ++ members.take i)) := by
  induction members generalizing earlier i with
  | nil => simp [sectionsFrom]
  | cons e more ih =>
    cases i with
    | zero => simp [sectionsFrom]
    | succ i => simp [sectionsFrom, ih]

end Context

namespace Siblings

def Follow (s : Siblings) (ctx : Context) (earlier : List Element) : Prop :=
  s.last = (ctx.predecessor? earlier).bind Element.run?

theorem follow_under (ctx : Context) (e : Element) : (under e).Follow ctx [] := rfl

theorem last_past (s : Siblings) (ctx : Context) (e : Element) :
    (s.past ctx e.toNode).last = (if ctx.isHidden e then none else e.run?).or s.last := rfl

theorem Follow.past {s : Siblings} {ctx : Context} {earlier : List Element}
    (h : s.Follow ctx earlier) (e : Element) :
    (s.past ctx e.toNode).Follow ctx (earlier ++ [e]) := by
  unfold Follow at h ⊢
  rw [Context.predecessor?_append_singleton, last_past, h]
  cases ctx.isHidden e with
  | true => simp
  | false =>
    cases hk : e.kind? with
    | none => simp [e.run?_eq, hk]
    | some kind => simp [e.run?_eq, hk]

end Siblings

namespace Node

theorem render_member {s : Siblings} {ctx : Context} {earlier : List Element}
    (h : s.Follow ctx earlier) {e : Element} (he : e.name = "member") :
    e.toNode.render s ctx = ctx.sectionOf earlier e := by
  have hkey : Key.of? s ctx e = some (e.sectionKey (ctx.predecessor? earlier)) := by
    rw [Key.of?, if_pos he, h, Element.ofMember_eq_sectionKey e Context.isSome_kind?_of_predecessor?]
  change (if e.tag.name = "member" ∧ ctx.isHidden e then _ else _) = _
  unfold Context.sectionOf
  cases hh : ctx.isHidden e with
  | true => simp [show e.tag.name = "member" from he]
  | false =>
    simp only [Bool.false_eq_true, and_false, if_false]
    rw [hkey]
    rfl

theorem renderMemberList_eq_concat {s : Siblings} {ctx : Context} {earlier : List Element}
    (h : s.Follow ctx earlier) (nodes : List Node) :
    renderMemberList s ctx nodes =
      .concat (ctx.sectionsFrom earlier ((nodes.filterMap element?).filter (·.name = "member"))) := by
  induction nodes generalizing s earlier with
  | nil => rfl
  | cons n nodes ih =>
    cases n with
    | text content => exact ih h
    | element tag children =>
      let e : Element := ⟨tag, children⟩
      have hlist : (e.toNode :: nodes).filterMap element? = e :: nodes.filterMap element? := rfl
      rw [show Node.element tag children = e.toNode from rfl, hlist, renderMemberList]
      let p : Element → Bool := fun m => m.name = "member"
      by_cases hn : p e = true
      · have hnamed : e.toNode.isNamed "member" = true := hn
        rw [if_pos hnamed, List.filter_cons_of_pos (p := p) hn, Context.sectionsFrom, Outcome.concat,
          ← ih (h.past e), render_member h (of_decide_eq_true hn)]
      · have hnamed : ¬ e.toNode.isNamed "member" = true := hn
        rw [if_neg hnamed, List.filter_cons_of_neg (p := p) hn]
        exact ih h

theorem renderMembers_eq_concat (ctx : Context) (e : Element) :
    renderMembers ctx e.toNode = .concat (ctx.sectionsFrom [] (e.childrenNamed "member")) :=
  renderMemberList_eq_concat (Siblings.follow_under ctx e) e.children

end Node

namespace Context

theorem predecessor?_filter_visible (ctx : Context) (earlier : List Element) :
    ctx.predecessor? (earlier.filter (!ctx.isHidden ·)) = ctx.predecessor? earlier := by
  simp only [predecessor?, ← List.filter_reverse, List.find?_filter]
  congr 1
  funext e
  cases ctx.isHidden e <;> simp

theorem predecessor?_skip {ctx : Context} {e : Element}
    (h : ctx.isHidden e = true ∨ e.kind? = none) (before behind : List Element) :
    ctx.predecessor? (before ++ e :: behind) = ctx.predecessor? (before ++ behind) := by
  have hskip : (!ctx.isHidden e && e.kind?.isSome) = false := by
    rcases h with h | h <;> simp [h]
  simp [predecessor?, List.find?_append, hskip]

def shownSections (ctx : Context) (e : Element) : List (Outcome Text) :=
  let members := e.childrenNamed "member"
  ((members.zip (ctx.sectionsFrom [] members)).filter (!ctx.isHidden ·.1)).map (·.2)

theorem shown_sectionsFrom (ctx : Context) (members earlier : List Element) :
    ((members.zip (ctx.sectionsFrom earlier members)).filter (!ctx.isHidden ·.1)).map (·.2) =
      ctx.sectionsFrom (earlier.filter (!ctx.isHidden ·)) (members.filter (!ctx.isHidden ·)) := by
  induction members generalizing earlier with
  | nil => rfl
  | cons e more ih =>
    have hstep := ih (earlier ++ [e])
    cases hh : ctx.isHidden e with
    | true => simpa [sectionsFrom, hh, List.filter_append] using hstep
    | false =>
      have hsame : ctx.sectionOf (earlier.filter (!ctx.isHidden ·)) e = ctx.sectionOf earlier e := by
        rw [sectionOf, sectionOf, predecessor?_filter_visible]
      simpa [sectionsFrom, hh, List.filter_append, hsame] using hstep

theorem concat_sectionsFrom (ctx : Context) (members earlier : List Element) :
    Outcome.concat (ctx.sectionsFrom earlier members) = .concat
      (((members.zip (ctx.sectionsFrom earlier members)).filter (!ctx.isHidden ·.1)).map (·.2)) := by
  induction members generalizing earlier with
  | nil => rfl
  | cons e more ih =>
    have hstep := ih (earlier ++ [e])
    cases hh : ctx.isHidden e with
    | true =>
      have hempty : ctx.sectionOf earlier e = .ok [] := by simp [sectionOf, hh]
      rw [sectionsFrom, hempty, Outcome.concat_cons_ok_nil, hstep]
      simp [hh]
    | false =>
      simp [sectionsFrom, hh, Outcome.concat, hstep]

end Context

open Node

theorem members_in_sections {ctx : Context} {e : Element} {out : Text}
    (h : (renderMembers ctx e.toNode).result = .ok out) :
    let members := e.childrenNamed "member"
    (∃ sections : List Text, out = sections.flatten ∧ sections.length = members.length ∧
      ∀ i m, members[i]? = some m → ∃ text, sections[i]? = some text ∧
        if ctx.isHidden m then text = []
        else
          let key := m.sectionKey (ctx.predecessor? (members.take i))
          (key.rule.apply m m.parts (ctx.under key m)).result = .ok text) ∧
    ∀ before m behind, (ctx.isHidden m = true ∨ m.kind? = none) →
      ctx.predecessor? (before ++ m :: behind) = ctx.predecessor? (before ++ behind) := by
  intro members
  refine ⟨?_, fun before m behind hm => ctx.predecessor?_skip hm before behind⟩
  rw [renderMembers_eq_concat] at h
  obtain ⟨texts, hs, rfl⟩ := Outcome.eq_flatten_of_concat h
  have hat : ∀ i, texts[i]?.map Except.ok =
      members[i]?.map fun m => (ctx.sectionOf (members.take i) m).result := by
    intro i
    rw [← List.getElem?_map, ← hs, List.getElem?_map, Context.getElem?_sectionsFrom, Option.map_map]
    rfl
  refine ⟨texts, rfl, ?_, ?_⟩
  · have := congrArg List.length hs
    rw [List.length_map, List.length_map, Context.length_sectionsFrom] at this
    exact this.symm
  · intro i m hm
    have hi := hat i
    rw [hm, Option.map_some, Option.map_eq_some_iff] at hi
    obtain ⟨text, ht, hr⟩ := hi
    refine ⟨text, ht, ?_⟩
    unfold Context.sectionOf at hr
    cases hh : ctx.isHidden m with
    | true => simpa [hh, Outcome.ok] using hr
    | false => simpa [hh] using hr.symm

def membersOf (members : List (Text × List Node)) : Element :=
  ⟨⟨"members", [], ⟨1, 1⟩⟩, members.map fun (name, body) =>
    .element ⟨"member", [("name", name)], ⟨2, 1⟩⟩ body⟩

def secretive : Context :=
  ⟨"Acme", ⟨.error, .singlePage⟩, ⟨fun id => !Text.holds "Secret" id.raw, fun _ _ _ => none⟩, [], none⟩

theorem members_in_sections_run :
    let e := membersOf
      [("M:A.One", []), ("P:A.Secret", []), ("X:A", []), ("M:A.Two(", []), ("M:A.#ctor", [])]
    let out : Text :=
      "\n#### Methods:\n\n##### One()\n\n\n##### M:A.Two(\n\n\n#### Constructors:\n\n##### A()\n\n"
    (renderMembers secretive e.toNode).result = .ok out ∧
      ∃ sections : List Text, out = sections.flatten ∧ sections.length = 5 := by
  intro e out
  have h : (renderMembers secretive e.toNode).result = .ok out := by decide +kernel
  obtain ⟨sections, hout, hlength, -⟩ := (members_in_sections h).1
  exact ⟨h, sections, hout, hlength⟩

theorem hidden_members_leave_no_trace {ctx : Context} {a b : Element}
    (h : (a.childrenNamed "member").filter (!ctx.isHidden ·) =
      (b.childrenNamed "member").filter (!ctx.isHidden ·)) :
    renderMembers ctx a.toNode = renderMembers ctx b.toNode ∧
      ctx.shownSections a = ctx.shownSections b := by
  have hshown : ctx.shownSections a = ctx.shownSections b := by
    unfold Context.shownSections
    rw [Context.shown_sectionsFrom, Context.shown_sectionsFrom, h]
  refine ⟨?_, hshown⟩
  rw [renderMembers_eq_concat, renderMembers_eq_concat, Context.concat_sectionsFrom,
    Context.concat_sectionsFrom]
  exact congrArg Outcome.concat hshown

theorem hidden_members_leave_no_trace_blink :
    let blink : Node := .element ⟨"blink", [], ⟨3, 1⟩⟩ []
    let a := membersOf [("M:A.One", []), ("P:A.Secret", [blink]), ("M:A.Two", [])]
    let b := membersOf [("M:A.One", []), ("M:A.Two", [])]
    (a.childrenNamed "member").filter (!secretive.isHidden ·) =
        (b.childrenNamed "member").filter (!secretive.isHidden ·) ∧
      renderMembers secretive a.toNode = renderMembers secretive b.toNode := by
  intro blink a b
  have h : (a.childrenNamed "member").filter (!secretive.isHidden ·) =
      (b.childrenNamed "member").filter (!secretive.isHidden ·) := rfl
  exact ⟨h, (hidden_members_leave_no_trace h).1⟩

end Docmark
