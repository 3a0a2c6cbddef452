import Docmark.Proofs.Places
import Docmark.Proofs.Policies
import Docmark.Proofs.Warned

/-!
The order of the source against that of the walk: where the tag stands at which a run ends, among
those that a run with warnings reports.
-/

namespace Docmark

namespace Position

def Before (p q : Position) : Prop :=
  p.line < q.line ∨ p.line = q.line ∧ p.column < q.column

instance (p q : Position) : Decidable (p.Before q) :=
  inferInstanceAs (Decidable (_ ∨ _))

theorem le_after (offset : Nat) (p : Position) (t : Text) :
    p.line < (after offset p t).line ∨
      p.line = (after offset p t).line ∧ p.column ≤ (after offset p t).column := by
  induction t generalizing offset p with
  | nil => simp [after]
  | cons c cs ih =>
    rw [after]
    split
    · simp
    · split
      · have := ih (offset - c.utf8Size) ⟨p.line + 1, 1⟩
        dsimp only at this
        omega
      · have := ih (offset - c.utf8Size) ⟨p.line, p.column + c.utf8Size⟩
        dsimp only at this
        omega

theorem after_before {m n : Nat} (h : m < n) (p : Position) (t : Text) :
    (after m p t).Before (after n p t) := by
  induction t generalizing m n p with
  | nil =>
    rw [after, after, Before]
    dsimp only
    omega
  | cons c cs ih =>
    rw [after, after]
    by_cases hm : m < c.utf8Size
    · rw [if_pos hm]
      by_cases hn : n < c.utf8Size
      · rw [if_pos hn, Before]
        dsimp only
        omega
      · rw [if_neg hn, Before]
        split
        · have := le_after (n - c.utf8Size) ⟨p.line + 1, 1⟩ cs
          dsimp only at this ⊢
          omega
        · have := le_after (n - c.utf8Size) ⟨p.line, p.column + c.utf8Size⟩ cs
          dsimp only at this ⊢
          omega
    · have hn : ¬ n < c.utf8Size := by omega
      have hrest : m - c.utf8Size < n - c.utf8Size := by omega
      rw [if_neg hm, if_neg hn]
      split <;> exact ih hrest _

end Position

namespace Document

open Markup

theorem pairwise_tags_of_parse {source : Text} {d : Document} (h : parse source = .ok d) :
    d.root.toNode.tags.Pairwise fun s t => s.position.Before t.position := by
  have hevents : ofEvents (events (unmarked source)) = .ok d := h
  have hoffsets : (tokens (unmarked source)).items.Pairwise fun x y => x.1 < y.1 := by
    unfold tokens
    split <;> exact pairwise_tokensFrom 0 _
  rw [events] at hevents
  rw [tags_of_ofEvents hevents, filterMap_opened_events, List.pairwise_filterMap]
  refine hoffsets.imp ?_
  intro x y hxy s hs t ht
  obtain ⟨_, -, rfl⟩ := Option.map_eq_some_iff.1 hs
  obtain ⟨_, -, rfl⟩ := Option.map_eq_some_iff.1 ht
  exact Position.after_before hxy _ _

end Document

namespace Element

variable {root e f : Element} {R : StartTag → StartTag → Prop}

theorem tags_toNode (e : Element) : e.toNode.tags = e.tag :: e.children.flatMap Node.tags := by
  rw [toNode, Node.tags, Node.tagsAll_eq_flatMap]

theorem exists_child_of_at? {i : Nat} {a : Address} (h : root.at? (i :: a) = some e) :
    ∃ child : Element, root.children[i]? = some child.toNode ∧ child.at? a = some e := by
  obtain ⟨child, hchild, he⟩ := Option.bind_eq_some_iff.1 h
  obtain ⟨n, hn, hn'⟩ := Option.bind_eq_some_iff.1 hchild
  refine ⟨child, ?_, he⟩
  cases n with
  | text => cases hn'
  | element tag children =>
    cases hn'
    exact hn

theorem sublist_tags_of_at? {a : Address} (h : root.at? a = some e) :
    e.toNode.tags.Sublist root.toNode.tags := by
  induction a generalizing root with
  | nil =>
    cases h
    exact .refl _
  | cons i a ih =>
    obtain ⟨child, hchild, he⟩ := exists_child_of_at? h
    refine (ih he).trans ?_
    have hmem : child.toNode.tags ∈ root.children.map Node.tags :=
      List.mem_map_of_mem (List.mem_of_getElem? hchild)
    rw [tags_toNode root]
    exact (List.sublist_flatten_of_mem hmem).cons _

theorem tag_mem_tags (e : Element) : e.tag ∈ e.toNode.tags :=
  List.mem_cons_self

theorem tags_inside (hR : root.toNode.tags.Pairwise R) {a : Address} (ha : a ≠ [])
    (h : root.at? a = some e) : R root.tag e.tag := by
  obtain ⟨i, a, rfl⟩ := List.exists_cons_of_ne_nil ha
  obtain ⟨child, hchild, he⟩ := exists_child_of_at? h
  rw [tags_toNode, List.pairwise_cons] at hR
  refine hR.1 _ (List.mem_flatMap.2 ⟨_, List.mem_of_getElem? hchild, ?_⟩)
  exact (sublist_tags_of_at? he).subset e.tag_mem_tags

theorem tags_apart (hR : root.toNode.tags.Pairwise R) {i j : Nat} (hij : i < j) {a b : Address}
    (he : root.at? (i :: a) = some e) (hf : root.at? (j :: b) = some f) : R e.tag f.tag := by
  obtain ⟨child, hchild, he⟩ := exists_child_of_at? he
  obtain ⟨other, hother, hf⟩ := exists_child_of_at? hf
  rw [tags_toNode, List.pairwise_cons, List.pairwise_flatMap] at hR
  obtain ⟨hi, hi'⟩ := List.getElem?_eq_some_iff.1 hchild
  obtain ⟨hj, hj'⟩ := List.getElem?_eq_some_iff.1 hother
  have := List.pairwise_iff_getElem.1 hR.2.2 i j hi hj hij
  rw [hi', hj'] at this
  exact this _ ((sublist_tags_of_at? he).subset e.tag_mem_tags) _
    ((sublist_tags_of_at? hf).subset f.tag_mem_tags)

/-- The one element is below the first `assembly` of a `doc` element, the other below the first
`members`, which stands in front of that. -/
inductive Swapped (root : Element) : Address → Address → Prop
  | intro {a b c : Address} {e assembly members : Element} {i j : Nat} : root.at? a = some e →
    e.name = "doc" → e.first? "assembly" = some ([i], assembly) →
    e.first? "members" = some ([j], members) → j < i → Swapped root (a ++ i :: b) (a ++ j :: c)

theorem tags_of_walkedBefore (hR : root.toNode.tags.Pairwise R) {a b : Address}
    (h : WalkedBefore root a b) (he : root.at? a = some e) (hf : root.at? b = some f) :
    R e.tag f.tag ∨ Swapped root a b ∧ R f.tag e.tag := by
  have hbelow {p a : Address} {e x : Element} (hp : root.at? p = some e)
      (hx : root.at? (p ++ a) = some x) : e.at? a = some x ∧ e.toNode.tags.Pairwise R := by
    rw [at?_append, hp, Option.bind_some] at hx
    exact ⟨hx, hR.sublist (sublist_tags_of_at? hp)⟩
  cases h with
  | inside _ hb =>
    obtain ⟨hf, hR⟩ := hbelow he hf
    exact Or.inl (tags_inside hR hb hf)
  | apart hp _ hij =>
    obtain ⟨he, hR⟩ := hbelow hp he
    exact Or.inl (tags_apart hR hij he (hbelow hp hf).1)
  | @doc p c d x y z hp hdoc hy hz =>
    obtain ⟨i, hi⟩ := exists_index_of_mem_placed (mem_of_first? hy).1
    obtain ⟨j, hj⟩ := exists_index_of_mem_placed (mem_of_first? hz).1
    obtain ⟨_, assembly⟩ := y
    obtain ⟨_, members⟩ := z
    subst hi hj
    have hne : i ≠ j := by
      rintro rfl
      exact (WalkedBefore.doc (b := []) (c := []) hp hdoc hy hz).ne rfl
    obtain ⟨he, hR⟩ := hbelow hp he
    have hf := (hbelow hp hf).1
    rcases Nat.lt_or_gt_of_ne hne with hij | hji
    · exact Or.inl (tags_apart hR hij he hf)
    · exact Or.inr ⟨.intro hp hdoc hy hz hji, tags_apart hR hji hf he⟩

end Element

namespace Document

open Element

/-- A run that ends at an unknown tag ends at the first that a run with warnings reports. That tag
stands in front of the others, but for those in the members of a `doc` element whose `assembly`,
with that tag in it, stands behind them. -/
theorem first_report_in_source {source : Text} {d : Document} (h : parse source = .ok d)
    {layout : Layout} {r : Resolver} {u : UnknownTag}
    (hu : (d.render ⟨.error, layout⟩ r).result = .error u) :
    ∃ more a e, (d.render ⟨.warn, layout⟩ r).warnings = u :: more ∧
      Reachable r d.root a e ∧ e.report = u ∧
      ∀ v ∈ more, u.position.Before v.position ∨
        v.position.Before u.position ∧
          ∃ b f, Reachable r d.root b f ∧ f.report = v ∧ Swapped d.root a b := by
  obtain ⟨markdown, unknown, hw, -, he⟩ := d.agree_render layout r
  dsimp only at hw he
  have hreports : d.root.reports r = unknown := by
    rw [← (d.warns_render layout r).warnings_eq, hw]
  rw [he] at hu
  cases unknown with
  | nil => cases hu
  | cons _ more =>
    cases hu
    -- The first report is the first unknown element of the walk, so the walk goes to all others later.
    obtain ⟨⟨a, e⟩, rest, hfound, rfl, rfl⟩ := List.map_eq_cons_iff.1 hreports
    have hordered := (pairwise_walk r d.root).filter (·.2.isUnknown)
    have hreached : ∀ y ∈ (a, e) :: rest, Reachable r d.root y.1 y.2 := by
      rw [← hfound]
      exact fun y hy => mem_walk_iff.1 (List.mem_filter.1 hy).1
    rw [hfound, List.pairwise_cons] at hordered
    have he := hreached (a, e) List.mem_cons_self
    refine ⟨_, a, e, congrArg Outcome.warnings hw, he, rfl, ?_⟩
    intro v hv
    obtain ⟨⟨b, f⟩, hy, rfl⟩ := List.mem_map.1 hv
    have hf := hreached (b, f) (List.mem_cons_of_mem _ hy)
    rcases tags_of_walkedBefore (pairwise_tags_of_parse h) (hordered.1 (b, f) hy) he.at?_eq hf.at?_eq
      with hbefore | ⟨hswapped, hbefore⟩
    · exact Or.inl hbefore
    · exact Or.inr ⟨hbefore, b, f, hf, rfl, hswapped⟩

def swappedSource : Text :=
  "<doc><members><member name='T:A'><blink/></member></members><assembly><blunk/></assembly></doc>"

def swappedDocument : Document :=
  ⟨⟨⟨"doc", [], ⟨1, 1⟩⟩, [
    .element ⟨"members", [], ⟨1, 6⟩⟩ [.element ⟨"member", [("name", "T:A")], ⟨1, 15⟩⟩ [
      .element ⟨"blink", [], ⟨1, 34⟩⟩ []]],
    .element ⟨"assembly", [], ⟨1, 61⟩⟩ [.element ⟨"blunk", [], ⟨1, 71⟩⟩ []]]⟩⟩

theorem parse_swappedSource : parse swappedSource = .ok swappedDocument := by cbv

theorem result_swappedDocument :
    (swappedDocument.render ⟨.error, .perAssembly⟩ .unknown).result = .error ⟨"blunk", ⟨1, 71⟩⟩ := by
  decide

theorem first_report_in_source_blunk :
    parse swappedSource = .ok swappedDocument ∧
      (swappedDocument.render ⟨.error, .perAssembly⟩ .unknown).result = .error ⟨"blunk", ⟨1, 71⟩⟩ ∧
      ∃ a e, Reachable .unknown swappedDocument.root a e ∧ e.report = ⟨"blunk", ⟨1, 71⟩⟩ := by
  obtain ⟨_, a, e, -, ha, he, -⟩ := first_report_in_source parse_swappedSource result_swappedDocument
  exact ⟨parse_swappedSource, result_swappedDocument, a, e, ha, he⟩

theorem first_report_not_least :
    ∃ d u v, parse swappedSource = .ok d ∧
      (d.render ⟨.error, .perAssembly⟩ .unknown).result = .error u ∧
      v ∈ (d.render ⟨.warn, .perAssembly⟩ .unknown).warnings ∧ v.position.Before u.position := by
  have hwarnings : (swappedDocument.render ⟨.warn, .perAssembly⟩ .unknown).warnings =
      [⟨"blunk", ⟨1, 71⟩⟩, ⟨"blink", ⟨1, 34⟩⟩] := by decide
  refine ⟨swappedDocument, _, ⟨"blink", ⟨1, 34⟩⟩, parse_swappedSource, result_swappedDocument, ?_,
    by decide⟩
  rw [hwarnings]
  decide

end Document
end Docmark
