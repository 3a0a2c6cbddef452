import Docmark.Proofs.Policies
import Docmark.Proofs.Reach
import Docmark.Proofs.Templates
import Docmark.Proofs.Twins

namespace Docmark

theorem Outcome.bind_eq_ok {α β : Type} {x : Outcome α} {f : α → Outcome β} {b : β}
    (h : x >>= f = ok b) : ∃ a, x = ok a ∧ f a = ok b := by
  obtain ⟨warnings, result⟩ := x
  cases result with
  | error u =>
    rw [bind_result_error (x := ⟨warnings, .error u⟩) rfl] at h
    cases h
  | ok a =>
    rw [bind_result_ok (x := ⟨warnings, .ok a⟩) rfl, withWarnings, ok, mk.injEq,
      List.append_eq_nil_iff] at h
    obtain ⟨⟨rfl, hwarnings⟩, hresult⟩ := h
    refine ⟨a, rfl, ?_⟩
    rw [ok, ← hwarnings, ← hresult]

def Rule.headed (rule : Rule) (heading : Text) : Rule :=
  ⟨heading ++ rule.template, rule.content⟩

theorem Rule.eq_headed {rule other : Rule} {heading : Text} (hc : rule.content = other.content)
    (ht : rule.template = heading ++ other.template) : rule = other.headed heading := by
  rw [headed, ← ht, ← hc]

theorem Rule.apply_headed {heading : Text} (hh : '{' ∉ heading) (rule : Rule) (e : Element)
    (parts : Parts) (ctx : Context) :
    (rule.headed heading).apply e parts ctx = (heading ++ ·) <$> rule.apply e parts ctx := by
  let x := rule.content.values e parts ctx
  change (x >>= fun values => Outcome.ok (fill (heading ++ rule.template) values)) =
    (x >>= fun values => Outcome.ok (fill rule.template values)) >>= fun out => .ok (heading ++ out)
  cases hx : x.result with
  | error u => rw [Outcome.bind_result_error hx, Outcome.bind_result_error hx, Outcome.bind_result_error rfl]
  | ok values =>
    rw [Outcome.bind_result_ok hx, Outcome.bind_result_ok hx, Outcome.bind_result_ok rfl, fill_append hh]
    simp only [Outcome.withWarnings, Outcome.ok, List.append_nil]

theorem Rule.apply_headed_of_eq_ok {rule : Rule} {heading : Text} (hh : '{' ∉ heading) {e : Element}
    {parts : Parts} {ctx : Context} {out : Text} (h : rule.apply e parts ctx = .ok out) :
    (rule.headed heading).apply e parts ctx = .ok (heading ++ out) := by
  rw [apply_headed hh, h]
  rfl

namespace Key

def runHeading (tag : Text) : Text :=
  if tag = "param" then "\n|Name | Description |\n|-----|------|\n"
  else if tag = "typeparam" then "\n#### Generics:\n\n|Name | Description |\n|-----|------|\n"
  else if tag = "seealso" then "\n\nSee also:\n\n"
  else []

def runTags : List Text := ["param", "typeparam", "seealso"]

def headingAfter (previous : Option Text) (e : Element) : Text :=
  if previous = some e.name then runHeading e.name else []

theorem not_mem_runHeading (tag : Text) : '{' ∉ runHeading tag := by
  unfold runHeading
  repeat' split
  all_goals decide

theorem not_mem_headingAfter (previous : Option Text) (e : Element) :
    '{' ∉ headingAfter previous e := by
  unfold headingAfter
  split
  · exact not_mem_runHeading e.name
  · exact List.not_mem_nil

theorem headingAfter_of_no_run {e : Element} (h : e.name ∉ runTags) (previous : Option Text) :
    headingAfter previous e = [] := by
  simp only [runTags, List.mem_cons, List.not_mem_nil, or_false, not_or] at h
  obtain ⟨hp, ht, hs⟩ := h
  rw [headingAfter, runHeading, if_neg hp, if_neg ht, if_neg hs, ite_self]

variable {s : Siblings} {ctx : Context} {e : Element} {q : Option Text}

structure Runs (tag : Text) (k : Bool → Key) : Prop where
  of?_eq : ∀ s ctx (e : Element), e.name = tag → of? s ctx e = some (k (s.previous != some e.name))
  rule_eq : (k true).rule = (k false).rule.headed (runHeading tag)
  isMember_eq : ∀ first, (k first).isMember = false

def runKeys : List (Text × (Bool → Key)) :=
  [("param", param), ("typeparam", typeParam), ("seealso", seeAlso)]

theorem runs_of_mem_runKeys {tag : Text} {k : Bool → Key} (h : (tag, k) ∈ runKeys) : Runs tag k := by
  have hparam : ofTag? ("param" : Text) = some (param false) := by decide
  have htypeParam : ofTag? ("typeparam" : Text) = some (typeParam false) := by decide
  have hseeAlso : ofTag? ("seealso" : Text) = some (seeAlso false) := by decide
  simp only [runKeys, List.mem_cons, List.not_mem_nil, or_false, Prod.mk.injEq] at h
  rcases h with ⟨rfl, rfl⟩ | ⟨rfl, rfl⟩ | ⟨rfl, rfl⟩
  · refine ⟨fun s ctx e he => ?_, Rule.eq_headed rfl (by decide), fun _ => rfl⟩
    rw [of?, he, if_neg (by decide), if_neg (by decide), hparam]
  · refine ⟨fun s ctx e he => ?_, Rule.eq_headed rfl (by decide), fun _ => rfl⟩
    rw [of?, he, if_neg (by decide), if_neg (by decide), htypeParam]
  · refine ⟨fun s ctx e he => ?_, Rule.eq_headed rfl (by decide), fun _ => rfl⟩
    rw [of?, he, if_neg (by decide), if_neg (by decide), hseeAlso]

theorem exists_runs {tag : Text} (h : tag ∈ runTags) : ∃ k, Runs tag k := by
  have hkeys : runTags = runKeys.map (·.1) := rfl
  rw [hkeys] at h
  obtain ⟨⟨_, k⟩, hk, rfl⟩ := List.mem_map.1 h
  exact ⟨k, runs_of_mem_runKeys hk⟩

theorem of?_of_no_run (h : e.name ∉ runTags) :
    of? { s with previous := q } ctx e = of? s ctx e := by
  have hrun : ∀ entry ∈ tags, entry.2 = param false ∨ entry.2 = typeParam false ∨
      entry.2 = seeAlso false → entry.1.toList ∈ runTags := by decide
  have hkey : ∀ key, ofTag? e.name = some key →
      ¬ (key = param false ∨ key = typeParam false ∨ key = seeAlso false) := by
    intro key ht hk
    obtain ⟨entry, hmem, hname, rfl⟩ := exists_of_ofTag? ht
    exact h (hname ▸ hrun entry hmem hk)
  unfold of?
  split
  · rfl
  · split
    · rfl
    · split
      case h_1 ht => exact absurd (Or.inl rfl) (hkey _ ht)
      case h_2 ht => exact absurd (Or.inr (Or.inl rfl)) (hkey _ ht)
      case h_3 ht => exact absurd (Or.inr (Or.inr rfl)) (hkey _ ht)
      all_goals rfl

theorem of?_behind (hq : e.name ∈ runTags → q ≠ some e.name) {key : Key} (h : of? s ctx e = some key) :
    ∃ key', of? { s with previous := q } ctx e = some key' ∧
      key'.rule = key.rule.headed (headingAfter s.previous e) ∧ key'.isMember = key.isMember := by
  by_cases hrun : e.name ∈ runTags
  · obtain ⟨k, hk⟩ := exists_runs hrun
    rw [hk.of?_eq s ctx e rfl, Option.some.injEq] at h
    have hnext : of? { s with previous := q } ctx e = some (k true) := by
      rw [hk.of?_eq _ ctx e rfl, bne_iff_ne.2 (hq hrun)]
    refine ⟨k true, hnext, ?_, by rw [← h, hk.isMember_eq, hk.isMember_eq]⟩
    rw [← h, headingAfter]
    by_cases hs : s.previous = some e.name
    · rw [if_pos hs, bne_eq_false_iff_eq.2 hs, hk.rule_eq]
    · rw [if_neg hs, bne_iff_ne.2 hs]
      rfl
  · refine ⟨key, (of?_of_no_run hrun).trans h, ?_, rfl⟩
    rw [headingAfter_of_no_run hrun]
    rfl

end Key

theorem Context.withPolicy_eq {ctx : Context} {p : Policy} (h : ctx.options.policy = p) :
    ctx.withPolicy p = ctx := by
  subst h
  rfl

namespace Siblings

def pastAll (s : Siblings) (ctx : Context) (nodes : List Node) : Siblings :=
  nodes.foldl (fun s n => s.past ctx n) s

theorem previous_pastAll (s : Siblings) (ctx : Context) (nodes : List Node) :
    (s.pastAll ctx nodes).previous =
      ((nodes.filterMap Node.element?).getLast?.map Element.name).or s.previous := by
  induction nodes generalizing s with
  | nil => rfl
  | cons n nodes ih =>
    change ((s.past ctx n).pastAll ctx nodes).previous = _
    rw [ih]
    cases n with
    | text => rfl
    | element tag children =>
      rw [Node.elements_cons, List.getLast?_cons]
      cases (nodes.filterMap Node.element?).getLast? <;> rfl

theorem pastAll_texts {nodes : List Node} (h : ∀ n ∈ nodes, n.isText = true) (s : Siblings)
    (ctx : Context) : s.pastAll ctx nodes = s := by
  induction nodes with
  | nil => rfl
  | cons n nodes ih =>
    cases n with
    | text => exact ih fun m hm => h m (List.mem_cons_of_mem _ hm)
    | element => exact absurd (h _ List.mem_cons_self) Bool.false_ne_true

def headingBetween (s : Siblings) (before behind : List Node) : Text :=
  let previous := ((before.filterMap Node.element?).getLast?.map Element.name).or s.previous
  ((behind.filterMap Node.element?).head?.map (Key.headingAfter previous)).getD []

end Siblings

namespace Node

variable {ctx : Context}

theorem exists_ok_render (h : ctx.options.policy = .accept) (s : Siblings) (n : Node) :
    ∃ out, n.render s ctx = .ok out := by
  obtain ⟨out, -, -, haccept, -⟩ := n.agrees.1 s ctx
  dsimp only at haccept
  exact ⟨out, Context.withPolicy_eq h ▸ haccept⟩

theorem exists_ok_renderAll (h : ctx.options.policy = .accept) (s : Siblings) (nodes : List Node) :
    ∃ out, renderAll s ctx nodes = .ok out := by
  obtain ⟨out, -, -, haccept, -⟩ := agree_renderAll (fun n (_ : n ∈ nodes) => n.agrees) s ctx
  dsimp only at haccept
  exact ⟨out, Context.withPolicy_eq h ▸ haccept⟩

theorem renderAll_cons_ok {s : Siblings} {n : Node} {nodes : List Node} {here more : Text}
    (hn : n.render s ctx = .ok here) (hs : renderAll (s.past ctx n) ctx nodes = .ok more) :
    renderAll s ctx (n :: nodes) = .ok (here ++ more) := by
  rw [renderAll, hn, Outcome.ok_bind, hs, Outcome.ok_bind]
  rfl

theorem renderAll_append_ok {s : Siblings} {before behind : List Node} {front back : Text}
    (hf : renderAll s ctx before = .ok front)
    (hb : renderAll (s.pastAll ctx before) ctx behind = .ok back) :
    renderAll s ctx (before ++ behind) = .ok (front ++ back) := by
  induction before generalizing s front with
  | nil =>
    cases hf
    exact hb
  | cons n before ih =>
    rw [renderAll] at hf
    obtain ⟨here, hn, hmore⟩ := Outcome.bind_eq_ok hf
    obtain ⟨more, hs, hfront⟩ := Outcome.bind_eq_ok hmore
    cases hfront
    rw [List.cons_append, List.append_assoc]
    exact renderAll_cons_ok hn (ih hs hb)

theorem render_behind {s : Siblings} {e : Element} {q : Option Text}
    (hq : e.name ∈ Key.runTags → q ≠ some e.name) {out : Text}
    (he : e.toNode.render s ctx = .ok out) :
    e.toNode.render { s with previous := q } ctx = .ok (Key.headingAfter s.previous e ++ out) := by
  rw [Element.render_toNode] at he ⊢
  by_cases hm : e.name = "member" ∧ ctx.isHidden e = true
  · rw [if_pos hm] at he ⊢
    cases he
    rw [Key.headingAfter_of_no_run (hm.1 ▸ by decide)]
    rfl
  · rw [if_neg hm] at he ⊢
    cases hk : Key.of? s ctx e with
    | none =>
      have hrun : e.name ∉ Key.runTags := by
        intro hmem
        obtain ⟨k, hruns⟩ := Key.exists_runs hmem
        rw [hruns.of?_eq s ctx e rfl] at hk
        cases hk
      rw [hk] at he
      rw [Key.of?_of_no_run hrun, hk, Key.headingAfter_of_no_run hrun]
      exact he
    | some key =>
      obtain ⟨key', hkey, hrule, hmember⟩ := Key.of?_behind hq hk
      rw [hk] at he
      rw [hkey]
      dsimp only at he ⊢
      have hunder : ctx.under key' e = ctx.under key e := by
        rw [Context.under, hmember, Context.under]
      rw [hrule, hunder]
      exact Rule.apply_headed_of_eq_ok (Key.not_mem_headingAfter s.previous e) he

theorem renderAll_texts {nodes : List Node} (h : ∀ n ∈ nodes, n.isText = true) (s q : Siblings) :
    renderAll s ctx nodes = renderAll q ctx nodes := by
  induction nodes with
  | nil => rfl
  | cons n nodes ih =>
    cases n with
    | text content =>
      have hmore : renderAll (s.past ctx (.text content)) ctx nodes =
          renderAll (q.past ctx (.text content)) ctx nodes :=
        ih fun m hm => h m (List.mem_cons_of_mem _ hm)
      rw [renderAll, renderAll, hmore, render, render]
    | element => exact absurd (h _ List.mem_cons_self) Bool.false_ne_true

theorem elements_texts {nodes : List Node} (h : ∀ n ∈ nodes, n.isText = true) :
    nodes.filterMap element? = [] := by
  rw [List.filterMap_eq_nil_iff]
  intro n hn
  cases n with
  | text => rfl
  | element => cases h _ hn

theorem isText_head?_dropWhile (nodes : List Node) :
    ∀ n ∈ (nodes.dropWhile isText).head?, n.isText = false := by
  intro n hn
  have hhead := List.head?_dropWhile_not isText nodes
  rw [hn] at hhead
  exact hhead

theorem past_of_no_attributes {x : Element} (ha : x.tag.attributes = []) (s : Siblings) :
    s.past ctx x.toNode = { s with previous := some x.name } := by
  have hname : x.attr? "name" = none := by rw [Element.attr?, ha, List.lookup_nil]
  have hhidden : ctx.isHidden x = false := by
    rw [Context.isHidden, hname]
    rfl
  rw [Siblings.past, Element.element?_toNode]
  dsimp only
  rw [hhidden, hname]
  rfl

section

variable {x : Element} (hx : x.isUnknown = true)

include hx

theorem render_unknown (h : ctx.options.policy = .accept) (s : Siblings) :
    x.toNode.render s ctx = .ok [] := by
  have hmember : x.name ≠ "member" := Element.ne_of_isUnknown hx (Or.inl rfl)
  rw [Element.render_toNode, if_neg fun hm => hmember hm.1, (Element.key_eq_none_iff s ctx).2 hx]
  dsimp only
  rw [Context.unknown, h]
  rfl

theorem not_mem_runTags : x.name ∉ Key.runTags := by
  intro hmem
  have htags : ∀ tag ∈ Key.runTags, (Key.ofTag? tag).isSome = true := by decide
  exact Element.ne_of_isUnknown hx (Or.inr (Or.inr (htags _ hmem))) rfl

theorem renderAll_behind_unknown (h : ctx.options.policy = .accept) {s : Siblings}
    {nodes : List Node} (hs : ∀ n ∈ nodes.head?, n.isText = false) {out : Text}
    (hout : renderAll s ctx nodes = .ok out) :
    renderAll { s with previous := some x.name } ctx nodes =
      .ok (((nodes.filterMap element?).head?.map (Key.headingAfter s.previous)).getD [] ++ out) := by
  cases nodes with
  | nil => exact hout
  | cons n nodes =>
    cases n with
    | text => cases hs _ rfl
    | element tag children =>
      let e : Element := ⟨tag, children⟩
      have hq : e.name ∈ Key.runTags → some x.name ≠ some e.name := by
        intro hmem hname
        rw [← Option.some.inj hname] at hmem
        exact not_mem_runTags hx hmem
      obtain ⟨here, hhere⟩ := exists_ok_render h s e.toNode
      obtain ⟨more, hmore⟩ := exists_ok_renderAll h (s.past ctx e.toNode) nodes
      cases hout.symm.trans (renderAll_cons_ok hhere hmore)
      rw [← List.append_assoc]
      exact renderAll_cons_ok (render_behind hq hhere) hmore

theorem renderAll_insert (ha : x.tag.attributes = []) (h : ctx.options.policy = .accept)
    (s : Siblings) (before behind : List Node) : ∃ front back,
      renderAll s ctx (before ++ behind.takeWhile isText) = .ok front ∧
      renderAll s ctx (before ++ behind) = .ok (front ++ back) ∧
      renderAll s ctx (before ++ x.toNode :: behind) =
        .ok (front ++ s.headingBetween before behind ++ back) := by
  let texts := behind.takeWhile isText
  let rest := behind.dropWhile isText
  let next := s.pastAll ctx before
  have hbehind : behind = texts ++ rest := List.takeWhile_append_dropWhile.symm
  have htexts : ∀ n ∈ texts, n.isText = true := List.all_eq_true.1 List.all_takeWhile
  have helements : behind.filterMap element? = rest.filterMap element? := by
    rw [hbehind, List.filterMap_append, elements_texts htexts, List.nil_append]
  -- Texts do not look at what stands in front of them: the first to do so is the next element.
  obtain ⟨front, hfront⟩ := exists_ok_renderAll h s before
  obtain ⟨middle, hmiddle⟩ := exists_ok_renderAll h next texts
  obtain ⟨back, hback⟩ := exists_ok_renderAll h next rest
  have hpast : next.pastAll ctx texts = next := Siblings.pastAll_texts htexts next ctx
  refine ⟨front ++ middle, back, renderAll_append_ok hfront hmiddle, ?_, ?_⟩
  · rw [hbehind, List.append_assoc]
    exact renderAll_append_ok hfront (renderAll_append_ok hmiddle (hpast ▸ hback))
  · let behindUnknown : Siblings := { next with previous := some x.name }
    have hmiddle' : renderAll behindUnknown ctx texts = .ok middle :=
      (renderAll_texts htexts _ next).trans hmiddle
    have hback' : renderAll (behindUnknown.pastAll ctx texts) ctx rest =
        .ok (s.headingBetween before behind ++ back) := by
      rw [Siblings.pastAll_texts htexts, Siblings.headingBetween, helements,
        ← Siblings.previous_pastAll]
      exact renderAll_behind_unknown hx h (isText_head?_dropWhile behind) hback
    have hunknown : renderAll (next.past ctx x.toNode) ctx (texts ++ rest) =
        .ok (middle ++ (s.headingBetween before behind ++ back)) := by
      rw [past_of_no_attributes ha]
      exact renderAll_append_ok hmiddle' hback'
    have hall := renderAll_append_ok hfront (renderAll_cons_ok (render_unknown hx h next) hunknown)
    rw [← hbehind] at hall
    rw [hall, List.nil_append, List.append_assoc, List.append_assoc]

end

/-- The same tree, but that the element stands among the children of some element in it. It splits no
run there, and in a `doc` element it is no `members` in front of the first. -/
inductive Gains (x : Element) : Node → Node → Prop
  | here {tag : StartTag} {before behind : List Node} :
    Siblings.start.headingBetween before behind = [] →
    (x.name = "members" → tag.name = "doc" → behind.any (isNamed "members") = true →
      before.any (isNamed "members") = true) →
    Gains x (.element tag (before ++ behind)) (.element tag (before ++ x.toNode :: behind))
  | inside {tag : StartTag} {before behind : List Node} {n m : Node} : Gains x n m →
    Gains x (.element tag (before ++ n :: behind)) (.element tag (before ++ m :: behind))

section

variable {x : Element} {before behind : List Node} {name : Text}

theorem isNamed_toNode (h : x.name ≠ name) : ¬ x.toNode.isNamed name = true :=
  fun hn => h (of_decide_eq_true hn)

theorem filter_insert (h : x.name ≠ name) :
    (before ++ x.toNode :: behind).filter (isNamed name) =
      (before ++ behind).filter (isNamed name) := by
  rw [List.filter_append, List.filter_append, List.filter_cons_of_neg (isNamed_toNode h)]

theorem find?_insert (h : x.name ≠ name) :
    (before ++ x.toNode :: behind).find? (isNamed name) = (before ++ behind).find? (isNamed name) := by
  rw [List.find?_append, List.find?_append, List.find?_cons_of_neg (isNamed_toNode h)]

theorem childrenNamed_insert (h : x.name ≠ name) (tag : StartTag) :
    Element.childrenNamed ⟨tag, before ++ x.toNode :: behind⟩ name =
      Element.childrenNamed ⟨tag, before ++ behind⟩ name := by
  unfold Element.childrenNamed Element.elements
  rw [← filter_elements, filter_insert h, filter_elements]

theorem child?_insert (h : x.name ≠ name) (tag : StartTag) :
    Element.child? ⟨tag, before ++ x.toNode :: behind⟩ name =
      Element.child? ⟨tag, before ++ behind⟩ name := by
  unfold Element.child? Element.elements
  rw [← find?_elements, find?_insert h, find?_elements]

theorem textContents_insert (hc : x.children = []) :
    textContents (before ++ x.toNode :: behind) = textContents (before ++ behind) := by
  rw [textContents_append, textContents_append, textContents, Element.toNode, hc]
  rfl

theorem find?_members_insert (h : x.name = "members" → behind.any (isNamed "members") = true →
    before.any (isNamed "members") = true) :
    (before ++ x.toNode :: behind).find? (isNamed "members") =
        (before ++ behind).find? (isNamed "members") ∨
      (before ++ behind).find? (isNamed "members") = none ∧
        (before ++ x.toNode :: behind).find? (isNamed "members") = some x.toNode := by
  by_cases hx : x.name = "members"
  · rw [List.find?_append, List.find?_append]
    cases hbefore : before.find? (isNamed "members") with
    | some n => exact Or.inl rfl
    | none =>
      have hno : ¬ before.any (isNamed "members") = true := by
        rw [List.any_eq_true]
        rintro ⟨n, hn, hname⟩
        exact List.find?_eq_none.1 hbefore n hn hname
      have hbehind : behind.find? (isNamed "members") = none := by
        rw [List.find?_eq_none]
        intro n hn hname
        exact hno (h hx (List.any_eq_true.2 ⟨n, hn, hname⟩))
      have hnamed : x.toNode.isNamed "members" = true := decide_eq_true hx
      rw [hbehind, List.find?_cons_of_pos hnamed]
      exact Or.inr ⟨rfl, rfl⟩
  · exact Or.inl (find?_insert hx)

theorem renderFirstMembers_insert (hc : x.children = [])
    (h : x.name = "members" → behind.any (isNamed "members") = true →
      before.any (isNamed "members") = true) (ctx : Context) :
    renderFirstMembers ctx (before ++ x.toNode :: behind) =
      renderFirstMembers ctx (before ++ behind) := by
  rw [renderFirstMembers_eq, renderFirstMembers_eq]
  rcases find?_members_insert h with hsame | ⟨hnone, hx⟩
  · rw [hsame]
  · rw [hnone, hx, Option.elim_some, Element.toNode, hc]
    rfl

theorem map_face_members_insert (hc : x.children = [])
    (h : x.name = "members" → behind.any (isNamed "members") = true →
      before.any (isNamed "members") = true) (tag : StartTag) :
    (Document.members ⟨⟨tag, before ++ x.toNode :: behind⟩⟩).map Element.face =
      (Document.members ⟨⟨tag, before ++ behind⟩⟩).map Element.face := by
  rw [Document.map_face_members, Document.map_face_members]
  unfold Element.child? Element.elements
  rw [← find?_elements, ← find?_elements]
  rcases find?_members_insert h with hsame | ⟨hnone, hx⟩
  · rw [hsame]
  · rw [hnone, hx, Option.bind_some, Element.element?_toNode, Option.map_some, Element.memberFaces,
      Element.childrenNamed, Element.elements, hc]
    rfl

end

section

variable {x : Element} {options : Options}

theorem insideTwins_insert (hx : x.isUnknown = true) (ha : x.tag.attributes = [])
    (hc : x.children = []) (hp : options.policy = .accept) {tag : StartTag}
    {before behind : List Node} (hrun : Siblings.start.headingBetween before behind = [])
    (hmembers : x.name = "members" → tag.name = "doc" → behind.any (isNamed "members") = true →
      before.any (isNamed "members") = true) :
    InsideTwins options tag (before ++ behind) (before ++ x.toNode :: behind) := by
  have hne {tag : Text} (ht : tag = "member" ∨ tag = "see" ∨ (Key.ofTag? tag).isSome = true) :
      x.name ≠ tag := Element.ne_of_isUnknown hx ht
  have hparam : x.name ≠ "param" := hne (Or.inr (Or.inr (by decide)))
  have hname : x.name ≠ "name" := hne (Or.inr (Or.inr (by decide)))
  have hassembly : x.name ≠ "assembly" := hne (Or.inr (Or.inr (by decide)))
  have hmember : x.name ≠ "member" := hne (Or.inl rfl)
  have hsame : List.Forall₂ (Twin options) (before ++ behind) (before ++ behind) :=
    List.forall₂_same.2 fun n _ => Twin.refl options n
  refine ⟨?_, ?_, ?_, ?_, ?_, ?_, ?_, ?_, ?_⟩
  · rw [parameterNames, parameterNames, childrenNamed_insert hparam]
  · rw [child?_insert hname]
  · rw [Content.documentName, Content.documentName, child?_insert hassembly]
  · rw [Element.memberFaces, Element.memberFaces, childrenNamed_insert hmember]
  · rw [textContents_insert hc]
    exact .refl _
  · intro e f ctx other hf hctx ho
    have hpolicy : other.options.policy = .accept := by rw [← hctx.options_eq, ho, hp]
    obtain ⟨front, back, -, hwithout, hwith⟩ :=
      renderAll_insert hx ha hpolicy (.under f) before behind
    rw [show (Siblings.under f).headingBetween before behind = [] from hrun, List.append_nil] at hwith
    rw [renderAll_of_twins hsame (Siblings.alike_under hf) hctx ho, hwithout, hwith]
  · intro ctx other hctx ho
    rw [renderAssembly_of_twins hsame hctx ho, renderAssembly_eq, renderAssembly_eq,
      find?_insert hassembly]
  · intro hdoc ctx other hctx ho
    rw [renderFirstMembers_of_twins hsame hctx ho,
      renderFirstMembers_insert hc fun hx => hmembers hx hdoc]
  · intro e f ctx other hf hctx ho
    rw [renderMemberList_of_twins hsame (Siblings.alike_under hf) hctx ho, renderMemberList_eq,
      renderMemberList_eq, filter_insert hmember]

theorem twins_of_twin {n m : Node} (h : n.Twin options m) (before behind : List Node) :
    List.Forall₂ (Twin options) (before ++ n :: behind) (before ++ m :: behind) := by
  have hsame (nodes : List Node) : List.Forall₂ (Twin options) nodes nodes :=
    List.forall₂_same.2 fun n _ => Twin.refl options n
  exact List.rel_append (hsame before) (.cons h (hsame behind))

theorem textContent_of_gains (hc : x.children = []) {n m : Node} (h : Gains x n m) :
    n.textContent = m.textContent := by
  induction h with
  | here => exact (textContents_insert hc).symm
  | inside _ ih => rw [textContent, textContent, textContents_append, textContents_append,
      textContents, textContents, ih]

theorem twin_of_gains (hx : x.isUnknown = true) (ha : x.tag.attributes = [])
    (hc : x.children = []) (hp : options.policy = .accept) {n m : Node} (h : Gains x n m) :
    n.Twin options m := by
  induction h with
  | @here tag before behind hrun hmembers =>
    exact .element (e := ⟨tag, before ++ behind⟩) (f := ⟨tag, before ++ x.toNode :: behind⟩)
      ((insideTwins_insert hx ha hc hp hrun hmembers).element fun _ => (textContents_insert hc).symm)
  | @inside tag before behind n m hgains ih =>
    have htwins := twins_of_twin ih before behind
    have hinside : Gains x (.element tag (before ++ n :: behind))
        (.element tag (before ++ m :: behind)) := .inside hgains
    refine .element (e := ⟨tag, before ++ n :: behind⟩) (f := ⟨tag, before ++ m :: behind⟩)
      ((insideTwins_of_twins htwins tag).element fun _ => ?_)
    exact textContent_of_gains hc hinside

end

end Node

namespace Document

open Node

theorem render_of_gains {x : Element} (hx : x.isUnknown = true) (ha : x.tag.attributes = [])
    (hc : x.children = []) {d d' : Document} (h : Gains x d.root.toNode d'.root.toNode)
    (hdoc : x.name = "members" → d.root.name = "doc") (layout : Layout) (resolver : Resolver) :
    d.render ⟨.accept, layout⟩ resolver = d'.render ⟨.accept, layout⟩ resolver := by
  let options : Options := ⟨.accept, layout⟩
  have htwin {n m : Node} (h : Gains x n m) : Twin options n m := twin_of_gains hx ha hc rfl h
  apply render_of_twin (htwin h).toElement
  obtain ⟨⟨tag, children⟩⟩ := d
  obtain ⟨⟨tag', others⟩⟩ := d'
  cases h with
  | here _ hmembers => exact (map_face_members_insert hc (fun hx => hmembers hx (hdoc hx)) tag).symm
  | inside hgains => exact map_face_members_of_twins (twins_of_twin (htwin hgains) _ _)

end Document

open Node

/-- An unknown element that is accepted changes nothing, unless it splits a run: then what is behind
it of the run is headed anew. -/
theorem accepted_unknown_tags_transparent {x : Element} (hx : x.isUnknown = true)
    (ha : x.tag.attributes = []) (hc : x.children = []) :
    (∀ (s : Siblings) (ctx : Context), ctx.options.policy = .accept →
      ∀ before behind : List Node, ∃ front back,
        renderAll s ctx (before ++ behind.takeWhile isText) = .ok front ∧
        renderAll s ctx (before ++ behind) = .ok (front ++ back) ∧
        renderAll s ctx (before ++ x.toNode :: behind) =
          .ok (front ++ s.headingBetween before behind ++ back)) ∧
    (∀ n m : Node, Gains x n m → ∀ (s : Siblings) (ctx : Context), ctx.options.policy = .accept →
      ∀ before behind : List Node,
        renderAll s ctx (before ++ m :: behind) = renderAll s ctx (before ++ n :: behind)) ∧
    ∀ d d' : Document, Gains x d.root.toNode d'.root.toNode →
      (x.name = "members" → d.root.name = "doc") → ∀ layout resolver,
        d'.render ⟨.accept, layout⟩ resolver = d.render ⟨.accept, layout⟩ resolver := by
  refine ⟨fun s ctx hp => renderAll_insert hx ha hp s, ?_, ?_⟩
  · intro n m h s ctx hp before behind
    have htwins := twins_of_twin (twin_of_gains hx ha hc hp h) before behind
    exact (renderAll_of_twins htwins (.refl s) (.refl ctx) rfl).symm
  · intro d d' h hdoc layout resolver
    exact (Document.render_of_gains hx ha hc h hdoc layout resolver).symm

def Element.blank (name : Text) : Element :=
  ⟨⟨name, [], ⟨1, 1⟩⟩, []⟩

def Node.named (tag name : Text) (children : List Node) : Node :=
  .element ⟨tag, [("name", name)], ⟨1, 1⟩⟩ children

def Context.accepting : Context :=
  ⟨[], ⟨.accept, .perAssembly⟩, .unknown, [], none⟩

open Context Element

theorem accepted_unknown_tags_transparent_blink :
    let blink := blank "blink"
    let front := named "param" "a" []
    let back := named "param" "b" []
    let item (text : List Node) : Element := ⟨⟨"item", [], ⟨1, 1⟩⟩, text⟩
    let plain := item [.text "one", .text "two"]
    let blinking := item [.text "one", blink.toNode, .text "two"]
    blink.isUnknown = true ∧ blink.tag.attributes = [] ∧ blink.children = [] ∧
      (∃ here more, renderAll .start accepting [front, back] = .ok (here ++ more) ∧
        renderAll .start accepting [front, blink.toNode, back] =
          .ok (here ++ "\n|Name | Description |\n|-----|------|\n" ++ more)) ∧
      renderAll .start accepting [blinking.toNode, back] =
        renderAll .start accepting [plain.toNode, back] ∧
      Document.render ⟨.accept, .singlePage⟩ .unknown ⟨blinking⟩ =
        Document.render ⟨.accept, .singlePage⟩ .unknown ⟨plain⟩ := by
  intro blink front back item plain blinking
  have hx : blink.isUnknown = true := by decide
  have hgains : Gains blink plain.toNode blinking.toNode :=
    @Gains.here blink _ [.text "one"] [.text "two"] rfl (by decide)
  obtain ⟨hlist, hinside, hdocument⟩ := accepted_unknown_tags_transparent hx rfl rfl
  obtain ⟨here, more, -, hwithout, hwith⟩ := hlist .start accepting rfl [front] [back]
  refine ⟨hx, rfl, rfl, ⟨here, more, hwithout, hwith⟩, ?_, ?_⟩
  · exact hinside _ _ hgains .start accepting rfl [] [back]
  · exact hdocument ⟨plain⟩ ⟨blinking⟩ hgains (by decide) .singlePage .unknown

theorem accepted_unknown_tags_not_transparent :
    (∃ (x : Element) (before behind : List Node), x.isUnknown = true ∧ x.tag.attributes = [] ∧
      x.children = [] ∧ renderAll .start accepting (before ++ x.toNode :: behind) ≠
        renderAll .start accepting (before ++ behind)) ∧
    ∃ (x : Element) (tag : StartTag) (before behind : List Node), x.isUnknown = true ∧
      x.tag.attributes = [] ∧ x.children = [] ∧
      Siblings.start.headingBetween before behind = [] ∧
      (element tag (before ++ x.toNode :: behind)).render .start accepting ≠
        (element tag (before ++ behind)).render .start accepting := by
  let front := named "param" "a" []
  let back := named "param" "b" []
  let members : Node := .element ⟨"members", [], ⟨1, 1⟩⟩ [named "member" "T:A" []]
  have hrun : (renderAll .start accepting ([front] ++ (blank "blink").toNode :: [back])).result ≠
      (renderAll .start accepting ([front] ++ [back])).result := by decide +kernel
  have hdoc : ((element ⟨"doc", [], ⟨1, 1⟩⟩ ([] ++ (blank "members").toNode :: [members])).render
      .start accepting).result ≠
      ((element ⟨"doc", [], ⟨1, 1⟩⟩ ([] ++ [members])).render .start accepting).result := by
    decide +kernel
  refine ⟨⟨blank "blink", [front], [back], ?_, rfl, rfl, fun h => hrun (congrArg _ h)⟩,
    ⟨blank "members", _, [], [members], ?_, rfl, rfl, rfl, fun h => hdoc (congrArg _ h)⟩⟩
  · decide
  · decide

end Docmark
