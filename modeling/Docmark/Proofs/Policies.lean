import Docmark.Proofs.Keys
import Docmark.Proofs.Tree

/-!
One document under the three policies on unknown tags. The run that warns always comes to an end,
and the two others can be read off it.
-/

namespace Docmark

namespace Outcome

variable {α β : Type}

def stopAt (unknown : List UnknownTag) (a : α) : Outcome α :=
  match unknown with
  | [] => ok a
  | u :: _ => fail u

def Agree (run : Policy → Outcome α) : Prop :=
  ∃ a unknown, run .warn = ⟨unknown, .ok a⟩ ∧ run .accept = ok a ∧ run .error = stopAt unknown a

theorem agree_ok (a : α) : Agree fun _ => ok a :=
  ⟨a, [], rfl, rfl, rfl⟩

theorem agree_bind {run : Policy → Outcome α} {next : Policy → α → Outcome β}
    (hr : Agree run) (hn : ∀ a, Agree fun p => next p a) : Agree fun p => run p >>= next p := by
  obtain ⟨a, before, hw, ha, he⟩ := hr
  obtain ⟨b, behind, hw', ha', he'⟩ := hn a
  dsimp only at hw' ha' he'
  refine ⟨b, before ++ behind, ?_, ?_, ?_⟩ <;> dsimp only
  · rw [bind_result_ok (by rw [hw]), hw', hw]
    rfl
  · rw [ha, ok_bind, ha']
  · rw [he]
    cases before with
    | nil => rw [stopAt, ok_bind, he', List.nil_append]
    | cons u more => rfl

theorem agree_map {run : Policy → Outcome α} (f : α → β) (hr : Agree run) :
    Agree fun p => run p >>= fun a => ok (f a) :=
  agree_bind hr fun a => agree_ok (f a)

end Outcome

namespace Context

def withPolicy (ctx : Context) (p : Policy) : Context :=
  { ctx with options := { ctx.options with policy := p } }

theorem withPolicy_under (ctx : Context) (p : Policy) (key : Key) (e : Element) :
    (ctx.withPolicy p).under key e = (ctx.under key e).withPolicy p := by
  unfold under
  split <;> rfl

theorem agree_unknown (ctx : Context) (tag : StartTag) :
    Outcome.Agree fun p => (ctx.withPolicy p).unknown tag :=
  ⟨[], [⟨tag.name, tag.position⟩], rfl, rfl, rfl⟩

end Context

open Outcome

structure Parts.Agree (parts : Parts) : Prop where
  body : ∀ ctx : Context, Outcome.Agree fun p => parts.body (ctx.withPolicy p)
  assembly : ∀ ctx : Context, Outcome.Agree fun p => parts.assembly (ctx.withPolicy p)
  members : ∀ ctx : Context, Outcome.Agree fun p => parts.members (ctx.withPolicy p)

theorem Content.agree_values {parts : Parts} (hp : parts.Agree) (e : Element) (ctx : Context)
    (content : Content) : Agree fun p => content.values e parts (ctx.withPolicy p) := by
  have hbody := hp.body ctx
  cases content with
  | document =>
    have hin : ∀ p, { ctx.withPolicy p with assembly := documentName e } =
        ({ ctx with assembly := documentName e } : Context).withPolicy p := fun _ => rfl
    simp only [values, hin]
    apply agree_bind (hp.assembly _)
    intro assembly
    exact agree_map _ (hp.members _)
  | nameAndBody => exact agree_map _ hbody
  | body => exact agree_map _ hbody
  | memberRow => exact agree_map _ hbody
  | parameter => exact agree_map _ hbody
  | list => exact agree_map _ hbody
  | description => exact agree_map _ hbody
  | nothing | memberName | codeBlock | crossReference | anchor | keyword | returnType | hyperlink =>
    exact agree_ok _

theorem Rule.agree_apply {parts : Parts} (hp : parts.Agree) (rule : Rule) (e : Element)
    (ctx : Context) : Agree fun p => rule.apply e parts (ctx.withPolicy p) :=
  agree_map _ (Content.agree_values hp e ctx rule.content)

namespace Node

/-- What the induction over trees carries along: a `members` element is rendered through its
children. -/
def Agrees (n : Node) : Prop :=
  (∀ s (ctx : Context), Agree fun p => n.render s (ctx.withPolicy p)) ∧
    ∀ ctx : Context, Agree fun p => renderMembers (ctx.withPolicy p) n

theorem agree_renderAll {nodes : List Node} (hs : ∀ n ∈ nodes, n.Agrees) (s : Siblings)
    (ctx : Context) : Agree fun p => renderAll s (ctx.withPolicy p) nodes := by
  induction nodes generalizing s with
  | nil => exact agree_ok _
  | cons n nodes ih =>
    simp only [renderAll]
    apply agree_bind ((hs n List.mem_cons_self).1 s ctx)
    intro here
    exact agree_map _ (ih (fun m hm => hs m (List.mem_cons_of_mem _ hm)) (s.past ctx n))

theorem agree_renderMemberList {nodes : List Node} (hs : ∀ n ∈ nodes, n.Agrees) (s : Siblings)
    (ctx : Context) : Agree fun p => renderMemberList s (ctx.withPolicy p) nodes := by
  simp only [renderMemberList_eq]
  exact agree_renderAll (fun n hn => hs n (List.mem_filter.1 hn).1) s ctx

theorem agree_renderAssembly {nodes : List Node} (hs : ∀ n ∈ nodes, n.Agrees) (ctx : Context) :
    Agree fun p => renderAssembly (ctx.withPolicy p) nodes := by
  simp only [renderAssembly_eq]
  cases hf : nodes.find? (isNamed "assembly") with
  | none => exact agree_ok []
  | some n => exact (hs n (List.mem_of_find?_eq_some hf)).1 _ ctx

theorem agree_renderFirstMembers {nodes : List Node} (hs : ∀ n ∈ nodes, n.Agrees) (ctx : Context) :
    Agree fun p => renderFirstMembers (ctx.withPolicy p) nodes := by
  simp only [renderFirstMembers_eq]
  cases hf : nodes.find? (isNamed "members") with
  | none => exact agree_ok []
  | some n => exact (hs n (List.mem_of_find?_eq_some hf)).2 ctx

theorem agrees (n : Node) : n.Agrees := by
  induction n with
  | text content => exact ⟨fun _ _ => agree_ok _, fun _ => agree_ok _⟩
  | element tag children hs =>
    refine ⟨fun s ctx => ?_, fun ctx => agree_renderMemberList hs _ ctx⟩
    have hkey : ∀ p, Key.of? s (ctx.withPolicy p) ⟨tag, children⟩ = Key.of? s ctx ⟨tag, children⟩ :=
      fun _ => rfl
    have hhidden : ∀ p, (ctx.withPolicy p).isHidden ⟨tag, children⟩ = ctx.isHidden ⟨tag, children⟩ :=
      fun _ => rfl
    simp only [render, hkey, hhidden, Context.withPolicy_under]
    by_cases hm : tag.name = "member" ∧ ctx.isHidden ⟨tag, children⟩
    · simp only [if_pos hm]
      exact agree_ok _
    · simp only [if_neg hm]
      cases Key.of? s ctx ⟨tag, children⟩ with
      | none => exact ctx.agree_unknown tag
      | some key =>
        apply Rule.agree_apply
        exact ⟨agree_renderAll hs _, agree_renderAssembly hs, agree_renderFirstMembers hs⟩

end Node

namespace Document

theorem agree_render (layout : Layout) (resolver : Resolver) (d : Document) :
    Agree fun p => d.render ⟨p, layout⟩ resolver :=
  let ctx : Context := ⟨[], ⟨.warn, layout⟩, resolver, d.members, none⟩
  agree_map _ (d.root.toNode.agrees.1 Siblings.start ctx)

theorem render_policies_agree (layout : Layout) (resolver : Resolver) (d : Document) :
    ∃ markdown unknown,
      d.render ⟨.warn, layout⟩ resolver = ⟨unknown, .ok markdown⟩ ∧
      d.render ⟨.accept, layout⟩ resolver = ⟨[], .ok markdown⟩ ∧
      ((d.render ⟨.error, layout⟩ resolver).result = .ok markdown ↔ unknown = []) ∧
      ∀ message ∈ (unknown.map UnknownTag.message).head?, ∃ u,
        (d.render ⟨.error, layout⟩ resolver).result = .error u ∧ u.message = message := by
  obtain ⟨markdown, unknown, hw, ha, he⟩ := d.agree_render layout resolver
  dsimp only at hw ha he
  refine ⟨markdown, unknown, hw, ha, ?_, ?_⟩
  · rw [he]
    cases unknown with
    | nil => simp [stopAt, ok]
    | cons u more => simp [stopAt, fail]
  · intro message hmessage
    cases unknown with
    | nil => simp at hmessage
    | cons u more =>
      refine ⟨u, by rw [he]; rfl, ?_⟩
      simpa using hmessage

end Document
end Docmark
