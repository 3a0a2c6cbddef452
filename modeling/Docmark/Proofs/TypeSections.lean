import Docmark.Proofs.Headings
import Docmark.Proofs.Sections
import Docmark.Proofs.Transparency

namespace Docmark

theorem Outcome.exists_of_map {r : Except UnknownTag Text} {f : Text → Text} {text : Text}
    (h : r.map f = .ok text) : ∃ inner, r = .ok inner ∧ text = f inner := by
  cases r with
  | error u => cases h
  | ok inner =>
    cases h
    exact ⟨inner, rfl, rfl⟩

theorem Rule.result_apply_headed {heading : Text} (hh : '{' ∉ heading) (rule : Rule) (e : Element)
    (parts : Parts) (ctx : Context) :
    ((rule.headed heading).apply e parts ctx).result =
      (rule.apply e parts ctx).result.map (heading ++ ·) := by
  rw [apply_headed hh]
  exact Outcome.result_map _ _

namespace Key

def isFirst : Key → Bool
  | field first | property first | method first | constructor first | event first => first
  | _ => false

def unheaded : Key → Key
  | field _ => field false
  | property _ => property false
  | method _ => method false
  | constructor _ => constructor false
  | event _ => event false
  | key => key

def title : Key → Text
  | field _ => "\n#### Fields:\n|Name | Type | Description |\n|-----|------|------|\n"
  | property _ => "\n#### Properties:\n|Name | Type | Description |\n|-----|------|------|\n"
  | method _ => "\n#### Methods:\n"
  | constructor _ => "\n#### Constructors:\n"
  | event _ => "\n#### Events:\n"
  | _ => []

theorem not_mem_title (key : Key) : '{' ∉ key.title := by
  cases key with
  | field first | property first | method first | constructor first | event first =>
    revert first
    decide
  | _ => exact List.not_mem_nil

theorem not_mem_title_of_first (key : Key) : '{' ∉ if key.isFirst then key.title else [] := by
  split
  · exact not_mem_title key
  · exact List.not_mem_nil

theorem rule_eq_headed (key : Key) :
    key.rule = key.unheaded.rule.headed (if key.isFirst then key.title else []) := by
  cases key with
  | field first | property first | method first | constructor first | event first =>
    cases first with
    | false => rfl
    | true => exact Rule.eq_headed rfl (by decide)
  | _ => rfl

theorem apply_rule {key : Key} {e : Element} {parts : Parts} {ctx : Context} {text : Text}
    (h : (key.rule.apply e parts ctx).result = .ok text) :
    ∃ plain, text = (if key.isFirst then key.title else []) ++ plain ∧
      (key.unheaded.rule.apply e parts ctx).result = .ok plain := by
  rw [rule_eq_headed, Rule.result_apply_headed (not_mem_title_of_first key)] at h
  obtain ⟨plain, hr, rfl⟩ := Outcome.exists_of_map h
  exact ⟨plain, rfl, hr⟩

theorem apply_type {e : Element} {parts : Parts} {ctx : Context} {text : Text}
    (h : (type.rule.apply e parts ctx).result = .ok text) :
    ∃ body, (parts.body ctx).result = .ok body ∧
      text = "\n---\n## " ++ (displayName ctx.assembly e ++ ("\n\n" ++ (body ++ "\n"))) := by
  have hheads : type.rule.Heads "\n---\n## " "\n\n" :=
    ⟨rfl, rfl, by decide, by decide⟩
  rw [hheads.result_apply] at h
  exact Outcome.exists_of_map h

end Key

namespace Element

variable {e p : Element}

def hasRun (e : Element) : Bool :=
  e.kind? ∈ [some Kind.method, some .property, some .field, some .event]

def isTypeSection (e : Element) : Bool :=
  e.sectionKey none = .type

theorem isFirst_sectionKey (h : e.hasRun = true) (previous : Option Element) :
    (e.sectionKey previous).isFirst = !e.continues previous := by
  unfold sectionKey
  unfold hasRun at h
  cases hk : e.kind? with
  | none => simp [hk] at h
  | some kind =>
    cases kind with
    | method => cases e.isMarked <;> rfl
    | property | field | event => rfl
    | type | scope => simp [hk] at h

theorem sectionKey_of_isTypeSection (h : e.isTypeSection = true) (previous : Option Element) :
    e.sectionKey previous = .type := by
  unfold isTypeSection sectionKey at h
  unfold sectionKey
  cases hk : e.kind? with
  | none =>
    rw [hk] at h
    cases hn : e.attr? "name" with
    | none =>
      rw [hn] at h
      exact of_decide_eq_true h
    | some raw =>
      rw [hn] at h
      exact of_decide_eq_true h
  | some kind =>
    cases kind with
    | type => rfl
    | method => cases hm : e.isMarked <;> simp [hk, hm] at h
    | property | field | event | scope => simp [hk] at h

theorem hasRun_of_isTypeSection (h : e.isTypeSection = true) : e.hasRun = false := by
  by_contra hrun
  have hfirst := isFirst_sectionKey (Bool.eq_true_of_not_eq_false hrun) none
  rw [sectionKey_of_isTypeSection h] at hfirst
  exact Bool.false_ne_true hfirst

theorem continues_iff_of_not_hasRun (h : e.hasRun = true) (hp : p.hasRun = false) :
    e.continues (some p) = true ↔
      e.kind? = some .method ∧ e.isMarked = true ∧ p.isMarked = true := by
  -- Only the mark of constructors, for which no kind is asked, is shared with a member in no run.
  have hne : p.kind? ≠ e.kind? := by
    intro hsame
    unfold hasRun at h hp
    rw [hsame, h] at hp
    exact Bool.false_ne_true hp.symm
  unfold hasRun at h
  simp only [continues, Option.any_some]
  cases hk : e.kind? with
  | none => simp [hk] at h
  | some kind =>
    rw [hk] at hne
    cases kind with
    | method => cases e.isMarked <;> simp [hne]
    | property | field | event => simp [hne]
    | type | scope => simp [hk] at h

end Element

namespace Context

variable {ctx : Context}

theorem predecessor?_append (before behind : List Element) :
    ctx.predecessor? (before ++ behind) = (ctx.predecessor? behind).or (ctx.predecessor? before) := by
  rw [predecessor?, List.reverse_append, List.find?_append]
  rfl

theorem sectionsFrom_append (earlier before behind : List Element) :
    ctx.sectionsFrom earlier (before ++ behind) =
      ctx.sectionsFrom earlier before ++ ctx.sectionsFrom (earlier ++ before) behind := by
  induction before generalizing earlier with
  | nil => rw [List.nil_append, List.append_nil, sectionsFrom, List.nil_append]
  | cons e before ih =>
    rw [List.cons_append, sectionsFrom, ih, sectionsFrom, List.cons_append, List.append_assoc]
    rfl

theorem predecessor?_eq_none_iff {members : List Element} :
    ctx.predecessor? members = none ↔ ∀ e ∈ members, ctx.isHidden e = false → e.kind? = none := by
  simp [predecessor?, List.find?_eq_none]

theorem mem_of_predecessor? {members : List Element} {p : Element}
    (h : ctx.predecessor? members = some p) : p ∈ members ∧ ctx.isHidden p = false := by
  have hshown := List.find?_some h
  simp only [Bool.and_eq_true, Bool.not_eq_true'] at hshown
  exact ⟨List.mem_reverse.1 (List.mem_of_find?_eq_some h), hshown.1⟩

theorem exists_section {earlier before behind : List Element} {m : Element} {texts : List Text}
    (hm : ctx.isHidden m = false)
    (h : (ctx.sectionsFrom earlier (before ++ m :: behind)).map (·.result) = texts.map .ok) :
    let key := m.sectionKey (ctx.predecessor? (earlier ++ before))
    ∃ front text rest, texts = front ++ text :: rest ∧
      (key.rule.apply m m.parts (ctx.under key m)).result = .ok text ∧
      (ctx.sectionsFrom (earlier ++ before ++ [m]) behind).map (·.result) = rest.map .ok := by
  intro key
  rw [sectionsFrom_append, sectionsFrom, List.map_append, List.map_cons] at h
  obtain ⟨front, tail, rfl, -, htail⟩ := List.map_eq_append_iff.1 h.symm
  obtain ⟨text, rest, rfl, htext, hrest⟩ := List.map_eq_cons_iff.1 htail
  refine ⟨front, text, rest, rfl, ?_, hrest.symm⟩
  rw [sectionOf, hm] at htext
  exact htext.symm

end Context

open Node

/-- Behind the section of a type, the first member of a run has the title of the run above it, below
the heading of the type, unless the mark of constructors is carried on or the type has no kind of its
own and so leaves the run in front of it open. -/
theorem type_section_heads_next_member_iff {ctx : Context} {e t m : Element}
    {before between behind : List Element}
    (hmembers : e.childrenNamed "member" = before ++ t :: (between ++ m :: behind))
    (ht : ctx.isHidden t = false) (htype : t.isTypeSection = true)
    (hbetween : ∀ b ∈ between, ctx.isHidden b = false →
      b.hasRun = false ∧ b.isTypeSection = false)
    (hm : ctx.isHidden m = false) (hrun : m.hasRun = true) :
    let key := m.sectionKey (ctx.predecessor? (before ++ t :: between))
    (key.isFirst = false ↔
      (∃ p, ctx.predecessor? (t :: between) = some p ∧
        m.kind? = some .method ∧ m.isMarked = true ∧ p.isMarked = true) ∨
      (∀ b ∈ t :: between, ctx.isHidden b = false → b.kind? = none) ∧
        m.continues (ctx.predecessor? before) = true) ∧
    ∀ out, (renderMembers ctx e.toNode).result = .ok out →
      ∃ front body middle plain rest,
        out = front ++ ("\n---\n## " ++ (displayName ctx.assembly t ++ ("\n\n" ++ (body ++ "\n")))) ++
          (middle ++ ((if key.isFirst then key.title else []) ++ plain ++ rest)) ∧
        (t.parts.body (ctx.under .type t)).result = .ok body ∧
        (key.unheaded.rule.apply m m.parts (ctx.under key m)).result = .ok plain := by
  intro key
  constructor
  · have hfirst : key.isFirst = false ↔ m.continues (ctx.predecessor? (before ++ t :: between)) = true := by
      rw [Element.isFirst_sectionKey hrun, Bool.not_eq_false']
    rw [hfirst, Context.predecessor?_append, ← Context.predecessor?_eq_none_iff]
    cases hp : ctx.predecessor? (t :: between) with
    | none => simp
    | some p =>
      -- Nothing from the type on stands in a run, so only the mark can be carried on.
      obtain ⟨hmem, hshown⟩ := Context.mem_of_predecessor? hp
      have hplain : p.hasRun = false := by
        rcases List.mem_cons.1 hmem with rfl | hmem
        · exact Element.hasRun_of_isTypeSection htype
        · exact (hbetween p hmem hshown).1
      rw [Option.some_or, Element.continues_iff_of_not_hasRun hrun hplain]
      simp
  · intro out hout
    rw [renderMembers_eq_concat, hmembers] at hout
    obtain ⟨texts, hs, rfl⟩ := Outcome.eq_flatten_of_concat hout
    obtain ⟨front, typeText, more, rfl, htext, hmore⟩ := Context.exists_section ht hs
    obtain ⟨middle, memberText, rest, rfl, hmember, -⟩ := Context.exists_section hm hmore
    rw [Element.sectionKey_of_isTypeSection htype] at htext
    obtain ⟨body, hbody, rfl⟩ := Key.apply_type htext
    have hearlier : [] ++ before ++ [t] ++ between = before ++ t :: between := by simp
    rw [hearlier] at hmember
    obtain ⟨plain, rfl, hplain⟩ := Key.apply_rule hmember
    refine ⟨front.flatten, body, middle.flatten, plain, rest.flatten, ?_, hbody, hplain⟩
    simp only [List.flatten_append, List.flatten_cons, List.append_assoc]
    rfl

theorem type_section_heads_next_member_iff_run :
    let member (name : Text) : Element := ⟨⟨"member", [("name", name)], ⟨2, 1⟩⟩, []⟩
    let e (name : Text) : Element :=
      membersOf [("M:A.One", []), (name, []), ("P:A.Secret", []), ("X:B", []), ("M:B.Two", [])]
    let between := [member "P:A.Secret", member "X:B"]
    let key (name : Text) : Key := (member "M:B.Two").sectionKey
      (secretive.predecessor? ([member "M:A.One"] ++ member name :: between))
    let out : Text :=
      "\n#### Methods:\n\n##### One()\n\n\n---\n## B\n\n\n\n#### Methods:\n\n##### Two()\n\n"
    (∀ name, (e name).childrenNamed "member" =
      [member "M:A.One"] ++ member name :: (between ++ [member "M:B.Two"])) ∧
    (∀ name ∈ (["T:B", "B"] : List Text), secretive.isHidden (member name) = false ∧
      (member name).isTypeSection = true) ∧
    (∀ b ∈ between, secretive.isHidden b = false → b.hasRun = false ∧ b.isTypeSection = false) ∧
    secretive.isHidden (member "M:B.Two") = false ∧ (member "M:B.Two").hasRun = true ∧
    (renderMembers secretive (e "T:B").toNode).result = .ok out ∧
    (∃ front body middle plain rest,
      out = front ++ ("\n---\n## " ++ ("B" ++ ("\n\n" ++ (body ++ "\n")))) ++
        (middle ++ ((key "T:B").title ++ plain ++ rest))) ∧
    (key "B").isFirst = false := by
  intro member e between key out
  have hmembers (name : Text) : (e name).childrenNamed "member" =
      [member "M:A.One"] ++ member name :: (between ++ [member "M:B.Two"]) := rfl
  have htypes : ∀ name ∈ (["T:B", "B"] : List Text), secretive.isHidden (member name) = false ∧
      (member name).isTypeSection = true := by
    decide
  have hbetween : ∀ b ∈ between, secretive.isHidden b = false →
      b.hasRun = false ∧ b.isTypeSection = false := by
    decide
  have hm : secretive.isHidden (member "M:B.Two") = false := by decide
  have hrun : (member "M:B.Two").hasRun = true := by decide +kernel
  have hout : (renderMembers secretive (e "T:B").toNode).result = .ok out := by decide +kernel
  have hread := htypes "T:B" List.mem_cons_self
  have hbare := htypes "B" (List.mem_cons_of_mem _ List.mem_cons_self)
  refine ⟨hmembers, htypes, hbetween, hm, hrun, hout, ?_, ?_⟩
  · have hname : displayName secretive.assembly (member "T:B") = "B" := by decide
    have hfirst : (key "T:B").isFirst = true := by decide
    obtain ⟨front, body, middle, plain, rest, hparts, -⟩ :=
      (type_section_heads_next_member_iff (hmembers "T:B") hread.1 hread.2 hbetween hm hrun).2 out hout
    rw [hname, if_pos hfirst] at hparts
    exact ⟨front, body, middle, plain, rest, hparts⟩
  · apply (type_section_heads_next_member_iff (hmembers "B") hbare.1 hbare.2 hbetween hm hrun).1.2
    exact .inr ⟨by decide, by decide⟩

end Docmark
