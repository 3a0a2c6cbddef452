import Docmark.Proofs.Events
import Docmark.Proofs.Keys

namespace Docmark

namespace Outcome

variable {α β : Type}

def Reports (tags : List StartTag) (x : Outcome α) : Prop :=
  ∀ u, u ∈ x.warnings ∨ x.result = .error u → ∃ tag ∈ tags, u = ⟨tag.name, tag.position⟩

variable {tags more : List StartTag}

theorem reports_ok (tags : List StartTag) (a : α) : Reports tags (ok a) := by
  rintro u (hu | hu)
  · exact absurd hu List.not_mem_nil
  · cases hu

theorem Reports.mono {x : Outcome α} (h : Reports tags x) (hs : tags ⊆ more) : Reports more x := by
  intro u hu
  obtain ⟨tag, ht, rfl⟩ := h u hu
  exact ⟨tag, hs ht, rfl⟩

theorem reports_bind {x : Outcome α} {next : α → Outcome β} (hx : Reports tags x)
    (hn : ∀ a, Reports tags (next a)) : Reports tags (x >>= next) := by
  intro u hu
  cases hr : x.result with
  | error v =>
    rw [bind_result_error hr] at hu
    rcases hu with hu | hu
    · exact hx u (Or.inl hu)
    · cases hu
      exact hx u (Or.inr hr)
  | ok a =>
    rw [bind_result_ok hr] at hu
    rcases hu with hu | hu
    · rcases List.mem_append.1 hu with hu | hu
      · exact hx u (Or.inl hu)
      · exact hn a u (Or.inl hu)
    · exact hn a u (Or.inr hu)

theorem reports_map {x : Outcome α} (f : α → β) (hx : Reports tags x) :
    Reports tags (x >>= fun a => ok (f a)) :=
  reports_bind hx fun a => reports_ok tags (f a)

end Outcome

open Outcome

theorem Context.reports_unknown (ctx : Context) (tag : StartTag) :
    Reports [tag] (ctx.unknown tag) := by
  unfold unknown
  cases ctx.options.policy with
  | error =>
    rintro u (hu | hu)
    · exact absurd hu List.not_mem_nil
    · cases hu
      exact ⟨tag, List.mem_cons_self, rfl⟩
  | warn =>
    rintro u (hu | hu)
    · exact ⟨tag, List.mem_cons_self, List.mem_singleton.1 hu⟩
    · cases hu
  | accept => exact reports_ok [tag] []

structure Parts.Report (parts : Parts) (tags : List StartTag) : Prop where
  body : ∀ ctx, Reports tags (parts.body ctx)
  assembly : ∀ ctx, Reports tags (parts.assembly ctx)
  members : ∀ ctx, Reports tags (parts.members ctx)

theorem Content.reports_values {parts : Parts} {tags : List StartTag} (hp : parts.Report tags)
    (e : Element) (ctx : Context) (content : Content) :
    Reports tags (content.values e parts ctx) := by
  have hbody := hp.body ctx
  cases content with
  | document =>
    apply reports_bind (hp.assembly _)
    intro assembly
    exact reports_map _ (hp.members _)
  | nameAndBody => exact reports_map _ hbody
  | body => exact reports_map _ hbody
  | memberRow => exact reports_map _ hbody
  | parameter => exact reports_map _ hbody
  | list => exact reports_map _ hbody
  | description => exact reports_map _ hbody
  | nothing | memberName | codeBlock | crossReference | anchor | keyword | returnType | hyperlink =>
    exact reports_ok tags _

namespace Node

def Reported (n : Node) : Prop :=
  (∀ s ctx, Reports n.tags (n.render s ctx)) ∧ ∀ ctx, Reports n.tags (renderMembers ctx n)

section

variable {nodes : List Node}

theorem reports_of_mem {n : Node} (hn : n ∈ nodes) {α : Type} {x : Outcome α}
    (h : Reports n.tags x) : Reports (tagsAll nodes) x := by
  rw [tagsAll_eq_flatMap]
  exact h.mono fun tag ht => List.mem_flatMap.2 ⟨n, hn, ht⟩

theorem reports_renderAll (hs : ∀ n ∈ nodes, n.Reported) (s : Siblings) (ctx : Context) :
    Reports (tagsAll nodes) (renderAll s ctx nodes) := by
  induction nodes generalizing s with
  | nil => exact reports_ok _ []
  | cons n nodes ih =>
    have hrest := ih (fun m hm => hs m (List.mem_cons_of_mem _ hm)) (s.past ctx n)
    rw [renderAll]
    apply reports_bind (reports_of_mem List.mem_cons_self ((hs n List.mem_cons_self).1 s ctx))
    intro here
    exact reports_map _ (hrest.mono (List.subset_append_right _ _))

theorem reports_renderMemberList (hs : ∀ n ∈ nodes, n.Reported) (s : Siblings) (ctx : Context) :
    Reports (tagsAll nodes) (renderMemberList s ctx nodes) := by
  rw [renderMemberList_eq]
  apply (reports_renderAll (fun n hn => hs n (List.mem_filter.1 hn).1) s ctx).mono
  intro tag ht
  rw [tagsAll_eq_flatMap, List.mem_flatMap] at ht ⊢
  obtain ⟨n, hn, ht⟩ := ht
  exact ⟨n, (List.mem_filter.1 hn).1, ht⟩

theorem reports_renderAssembly (hs : ∀ n ∈ nodes, n.Reported) (ctx : Context) :
    Reports (tagsAll nodes) (renderAssembly ctx nodes) := by
  rw [renderAssembly_eq]
  cases hf : nodes.find? (isNamed "assembly") with
  | none => exact reports_ok _ []
  | some n =>
    have hn := List.mem_of_find?_eq_some hf
    exact reports_of_mem hn ((hs n hn).1 _ ctx)

theorem reports_renderFirstMembers (hs : ∀ n ∈ nodes, n.Reported) (ctx : Context) :
    Reports (tagsAll nodes) (renderFirstMembers ctx nodes) := by
  rw [renderFirstMembers_eq]
  cases hf : nodes.find? (isNamed "members") with
  | none => exact reports_ok _ []
  | some n =>
    have hn := List.mem_of_find?_eq_some hf
    exact reports_of_mem hn ((hs n hn).2 ctx)

end

theorem reported (n : Node) : n.Reported := by
  induction n with
  | text content => exact ⟨fun _ _ => reports_ok _ _, fun _ => reports_ok _ _⟩
  | element tag children hs =>
    have hinside {α : Type} {x : Outcome α} (h : Reports (tagsAll children) x) :
        Reports (element tag children).tags x :=
      h.mono (List.subset_cons_self tag _)
    refine ⟨fun s ctx => ?_, fun ctx => hinside (reports_renderMemberList hs _ ctx)⟩
    rw [render]
    by_cases hm : tag.name = "member" ∧ ctx.isHidden ⟨tag, children⟩
    · rw [if_pos hm]
      exact reports_ok _ _
    · rw [if_neg hm]
      cases Key.of? s ctx ⟨tag, children⟩ with
      | none => exact (ctx.reports_unknown tag).mono (List.cons_subset_cons tag (List.nil_subset _))
      | some key =>
        apply reports_map
        apply Content.reports_values
        exact ⟨fun ctx => hinside (reports_renderAll hs _ ctx),
          fun ctx => hinside (reports_renderAssembly hs ctx),
          fun ctx => hinside (reports_renderFirstMembers hs ctx)⟩

end Node

theorem Document.reports_render (options : Options) (resolver : Resolver) (d : Document) :
    Reports d.root.toNode.tags (d.render options resolver) :=
  reports_map _ (d.root.toNode.reported.1 Siblings.start _)

end Docmark
