import Docmark.Proofs.Preparation

namespace Docmark.Document

variable {name other : Text} {f : List Node → List Node}

theorem child?_eq (d : Document) (name : Text) :
    d.root.child? name = (d.root.children.find? (Node.isNamed name)).bind Node.element? :=
  (Node.find?_elements name d.root.children).symm

theorem child?_updateFirst (d : Document) :
    (d.updateFirst name f).root.child? name =
      (d.root.child? name).map fun e => ⟨e.tag, f e.children⟩ := by
  rw [child?_eq, child?_eq, updateFirst, Node.find?_updateFirst]
  cases d.root.children.find? (Node.isNamed name) with
  | none => rfl
  | some n => cases n <;> rfl

theorem child?_updateFirst_of_ne (h : name ≠ other) (d : Document) :
    (d.updateFirst other f).root.child? name = d.root.child? name := by
  rw [child?_eq, child?_eq, updateFirst, Node.find?_updateFirst_of_ne h]

def assemblyNodes (d : Document) : List Node :=
  ((d.root.child? "assembly").map Element.children).getD []

def contents (d : Document) : List Node :=
  d.assemblyNodes ++ (d.memberNodes.filter (Node.isNamed "member")).flatMap Node.children

theorem mergeAssemblyDoc_eq (d : Document) :
    d.mergeAssemblyDoc =
      (d.updateFirst "members" (·.filter fun n => ¬ n.DescribesAssembly)).updateFirst "assembly"
        (· ++ d.moved) := by
  have hkept : (fun nodes : List Node => nodes.filter (!isAssemblyDoc ·)) =
      (·.filter fun n => ¬ n.DescribesAssembly) := by
    funext nodes
    apply List.filter_congr
    intro n _
    rw [Bool.eq_iff_iff]
    simp [← Node.isAssemblyDoc_iff]
  rw [mergeAssemblyDoc, moved, ← filter_isAssemblyDoc, hkept]

theorem child?_merged (d : Document) :
    d.mergeAssemblyDoc.root.child? "assembly" =
      (d.root.child? "assembly").map fun e => ⟨e.tag, e.children ++ d.moved⟩ := by
  rw [mergeAssemblyDoc_eq, child?_updateFirst, child?_updateFirst_of_ne (by decide)]

theorem memberNodes_merged (d : Document) :
    d.mergeAssemblyDoc.memberNodes = d.memberNodes.filter fun n => ¬ n.DescribesAssembly := by
  have hmembers : d.mergeAssemblyDoc.root.child? "members" =
      (d.root.child? "members").map fun e =>
        ⟨e.tag, e.children.filter fun n => ¬ n.DescribesAssembly⟩ := by
    rw [mergeAssemblyDoc_eq, child?_updateFirst_of_ne (by decide), child?_updateFirst]
  rw [memberNodes, hmembers, memberNodes]
  cases d.root.child? "members" <;> rfl

theorem assemblyNodes_merged (d : Document) :
    d.mergeAssemblyDoc.assemblyNodes =
      if (d.root.child? "assembly").isSome then d.assemblyNodes ++ d.moved else [] := by
  rw [assemblyNodes, child?_merged, assemblyNodes]
  cases d.root.child? "assembly" <;> rfl

theorem assemblyNodes_of_eq_none {d : Document} (h : d.root.child? "assembly" = none) :
    d.assemblyNodes = [] := by
  rw [assemblyNodes, h]
  rfl

theorem isNamed_of_describesAssembly {n : Node} (h : n.DescribesAssembly) :
    n.isNamed "member" = true := by
  obtain ⟨part, hpart, -⟩ := h
  cases n with
  | text content => cases hpart
  | element tag children =>
    by_cases htag : tag.name = "member"
    · exact decide_eq_true htag
    · rw [Node.memberName?, if_neg htag] at hpart
      cases hpart

theorem moved_append_kept_perm (d : Document) :
    (d.moved ++ (d.mergeAssemblyDoc.memberNodes.filter (Node.isNamed "member")).flatMap
        Node.children).Perm
      ((d.memberNodes.filter (Node.isNamed "member")).flatMap Node.children) := by
  let members := d.memberNodes.filter (Node.isNamed "member")
  have hout : d.memberNodes.filter (fun n => n.DescribesAssembly) =
      members.filter fun n => n.DescribesAssembly := by
    rw [List.filter_filter]
    apply List.filter_congr
    intro n _
    by_cases hn : n.DescribesAssembly
    · rw [isNamed_of_describesAssembly hn, Bool.and_true]
    · rw [decide_eq_false hn, Bool.false_and]
  have hkept : d.mergeAssemblyDoc.memberNodes.filter (Node.isNamed "member") =
      members.filter fun n => !decide n.DescribesAssembly := by
    rw [memberNodes_merged, List.filter_filter, List.filter_filter]
    apply List.filter_congr
    intro n _
    simp [Bool.and_comm]
  rw [moved, hout, hkept, ← List.flatMap_append]
  exact (List.filter_append_perm (fun n => n.DescribesAssembly) members).flatMap_right _

theorem infix_flatMap {n : Node} {nodes : List Node} (h : n ∈ nodes) :
    n.children <:+: nodes.flatMap Node.children := by
  obtain ⟨before, behind, rfl⟩ := List.mem_iff_append.1 h
  refine ⟨before.flatMap Node.children, behind.flatMap Node.children, ?_⟩
  rw [List.flatMap_append, List.flatMap_cons, List.append_assoc]

/-- What is in the members that are taken out goes to the end of the `assembly` element, member by
member and in order. It is lost just when there is no such element and there is anything to move. -/
theorem merging_loses_no_node_iff (d : Document) :
    let merged := d.mergeAssemblyDoc
    let removed := d.memberNodes.filter fun n => n.DescribesAssembly
    let placed := (d.root.child? "assembly").isSome = true ∨ ∀ n ∈ removed, n.children = []
    merged.memberNodes = d.memberNodes.filter (fun n => ¬ n.DescribesAssembly) ∧
      (merged.root.child? "assembly" = (d.root.child? "assembly").map fun e =>
        ⟨e.tag, e.children ++ removed.flatMap Node.children⟩) ∧
      ((∀ n ∈ removed, n.children <:+: merged.assemblyNodes) ↔ placed) ∧
      (merged.contents.Perm d.contents ↔ placed) := by
  intro merged removed placed
  have hperm := d.moved_append_kept_perm
  have hmoved : d.moved = [] ↔ ∀ n ∈ removed, n.children = [] := List.flatMap_eq_nil_iff
  have hnodes := d.assemblyNodes_merged
  refine ⟨d.memberNodes_merged, d.child?_merged, ?_⟩
  cases hassembly : d.root.child? "assembly" with
  | some e =>
    rw [hassembly, Option.isSome_some, if_pos rfl] at hnodes
    have hplaced : placed := .inl (by rw [hassembly]; rfl)
    rw [iff_true_right hplaced, iff_true_right hplaced]
    constructor
    · intro n hn
      rw [hnodes]
      exact (infix_flatMap hn).trans (List.suffix_append d.assemblyNodes d.moved).isInfix
    · rw [contents, hnodes, List.append_assoc]
      exact hperm.append_left d.assemblyNodes
  | none =>
    rw [hassembly, Option.isSome_none, if_neg Bool.false_ne_true] at hnodes
    have hplaced : placed ↔ ∀ n ∈ removed, n.children = [] := by
      simp only [placed, hassembly, Option.isSome_none, Bool.false_eq_true, false_or]
    have hlength := hperm.length_eq
    rw [List.length_append] at hlength
    rw [hplaced, hnodes]
    constructor
    · simp only [List.infix_nil]
    · rw [← hmoved, contents, hnodes, contents, assemblyNodes_of_eq_none hassembly, List.nil_append,
        List.nil_append]
      constructor
      · intro h
        have hnone : d.moved.length = 0 := Nat.add_eq_right.1 (hlength.trans h.length_eq.symm)
        exact List.eq_nil_of_length_eq_zero hnone
      · intro h
        rwa [h] at hperm

theorem merging_loses_no_node_iff_unplaced :
    let summary : Node := .element ⟨"summary", [], ⟨1, 47⟩⟩ [.text "Tools."]
    let marker := memberNode "T:Old.AssemblyDoc" [summary]
    let members : Element := ⟨⟨"members", [], ⟨1, 6⟩⟩, [marker]⟩
    let d : Document := ⟨⟨⟨"doc", [], ⟨1, 1⟩⟩, [members.toNode]⟩⟩
    d.memberNodes = [marker] ∧ d.mergeAssemblyDoc.memberNodes = [] ∧
      d.mergeAssemblyDoc.root.child? "assembly" = none ∧
      ¬ d.mergeAssemblyDoc.contents.Perm d.contents := by
  intro summary marker members d
  have hmembers : d.memberNodes = [marker] := rfl
  have hmarker : marker.DescribesAssembly := by decide +kernel
  have hremoved : (d.memberNodes.filter fun n => n.DescribesAssembly) = [marker] := by
    simp only [hmembers, List.filter_cons, hmarker]
    rfl
  have hkept : (d.memberNodes.filter fun n => ¬ n.DescribesAssembly) = [] := by
    simp only [hmembers, List.filter_cons, hmarker]
    rfl
  have hassembly : d.root.child? "assembly" = none := rfl
  obtain ⟨hrest, hplace, -, hlost⟩ := merging_loses_no_node_iff d
  rw [hkept] at hrest
  rw [hassembly] at hplace
  refine ⟨hmembers, hrest, hplace, ?_⟩
  rw [hlost, hremoved, hassembly]
  rintro (h | h)
  · cases h
  · cases h marker List.mem_cons_self

end Docmark.Document
