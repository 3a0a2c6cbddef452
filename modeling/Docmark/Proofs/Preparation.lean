import Mathlib.Data.List.Forall2
import Docmark.Page.Preparation
import Docmark.Proofs.Keys

namespace Docmark

namespace Node

variable {name other : Text} {f g : List Node → List Node}

def mapChildren (f : List Node → List Node) : Node → Node
  | .text content => .text content
  | .element tag children => .element tag (f children)

theorem updateFirst_eq_modify (name : Text) (f : List Node → List Node) (nodes : List Node) :
    updateFirst name f nodes = nodes.modify (nodes.findIdx (isNamed name)) (mapChildren f) := by
  induction nodes with
  | nil => rfl
  | cons n nodes ih =>
    rw [List.findIdx_cons]
    cases n with
    | text content => simp [updateFirst, isNamed, ih]
    | element tag children =>
      by_cases ht : tag.name = name
      · simp [updateFirst, isNamed, ht, mapChildren]
      · simp [updateFirst, isNamed, ht, ih]

theorem findIdx_updateFirst (name other : Text) (f : List Node → List Node) (nodes : List Node) :
    (updateFirst other f nodes).findIdx (isNamed name) = nodes.findIdx (isNamed name) := by
  induction nodes with
  | nil => rfl
  | cons n nodes ih =>
    cases n with
    | text content => simp [updateFirst, List.findIdx_cons, ih]
    | element tag children =>
      rw [updateFirst]
      split
      · simp [List.findIdx_cons, isNamed]
      · simp [List.findIdx_cons, ih]

theorem updateFirst_updateFirst (nodes : List Node) :
    updateFirst name g (updateFirst name f nodes) = updateFirst name (g ∘ f) nodes := by
  have hcomp : mapChildren g ∘ mapChildren f = mapChildren (g ∘ f) := by
    funext n
    cases n <;> rfl
  rw [updateFirst_eq_modify, findIdx_updateFirst, updateFirst_eq_modify, List.modify_modify_eq,
    hcomp, updateFirst_eq_modify]

theorem updateFirst_id (name : Text) (nodes : List Node) : updateFirst name id nodes = nodes := by
  have hid : mapChildren id = id := by
    funext n
    cases n <;> rfl
  rw [updateFirst_eq_modify, hid, List.modify_id]

theorem updateFirst_comm (h : name ≠ other) (nodes : List Node) :
    updateFirst name f (updateFirst other g nodes) =
      updateFirst other g (updateFirst name f nodes) := by
  induction nodes with
  | nil => rfl
  | cons n nodes ih =>
    cases n with
    | text content => simp only [updateFirst, ih]
    | element tag children =>
      by_cases hn : tag.name = name
      · have ho : tag.name ≠ other := fun ho => h (hn.symm.trans ho)
        simp only [updateFirst, if_pos hn, if_neg ho]
      · by_cases ho : tag.name = other
        · simp only [updateFirst, if_neg hn, if_pos ho]
        · simp only [updateFirst, if_neg hn, if_neg ho, ih]

theorem getElem?_updateFirst (name : Text) (f : List Node → List Node) (nodes : List Node) (i : Nat) :
    (updateFirst name f nodes)[i]? =
      if i = nodes.findIdx (isNamed name) then nodes[i]?.map (mapChildren f) else nodes[i]? := by
  rw [updateFirst_eq_modify]
  split
  · next h => rw [h, List.getElem?_modify_eq]; rfl
  · next h => rw [List.getElem?_modify_ne _ _ (Ne.symm h)]

theorem find?_updateFirst (name : Text) (f : List Node → List Node) (nodes : List Node) :
    (updateFirst name f nodes).find? (isNamed name) =
      (nodes.find? (isNamed name)).map (mapChildren f) := by
  rw [List.find?_eq_getElem?_findIdx, findIdx_updateFirst, getElem?_updateFirst, if_pos rfl,
    List.find?_eq_getElem?_findIdx]

theorem findIdx_ne {nodes : List Node} {n : Node} (h : name ≠ other)
    (hn : nodes[nodes.findIdx (isNamed name)]? = some n) :
    nodes.findIdx (isNamed name) ≠ nodes.findIdx (isNamed other) := by
  intro heq
  have hname := List.findIdx_of_getElem?_eq_some hn
  rw [heq] at hn
  have hother := List.findIdx_of_getElem?_eq_some hn
  cases n with
  | text content => cases hname
  | element tag children => exact h ((of_decide_eq_true hname).symm.trans (of_decide_eq_true hother))

theorem find?_updateFirst_of_ne (h : name ≠ other) (nodes : List Node) :
    (updateFirst other f nodes).find? (isNamed name) = nodes.find? (isNamed name) := by
  rw [List.find?_eq_getElem?_findIdx, List.find?_eq_getElem?_findIdx, findIdx_updateFirst,
    getElem?_updateFirst]
  cases hn : nodes[nodes.findIdx (isNamed name)]? with
  | none => exact ite_self none
  | some n => rw [if_neg (findIdx_ne h hn)]

def memberName? : Node → Option Text
  | .text _ => none
  | .element tag children =>
    if tag.name = "member" then Element.attr? ⟨tag, children⟩ "name" else none

def DescribesAssembly (n : Node) : Prop :=
  ∃ name ∈ n.memberName?, ("AssemblyDoc" : Text) <:+: name

def Mentions (namespaces : List Text) (n : Node) : Prop :=
  ∃ name ∈ n.memberName?, ∃ part ∈ namespaces, part <:+: name

def LacksReturns (n : Node) : Prop :=
  (∃ name ∈ n.memberName?, ("M:" : Text) <+: name ∨ ("m:" : Text) <+: name) ∧
    ∀ c ∈ n.children, c.isNamed "returns" = false

instance (n : Node) : Decidable n.DescribesAssembly :=
  inferInstanceAs (Decidable (∃ name ∈ n.memberName?, _ <:+: name))

instance (namespaces : List Text) (n : Node) : Decidable (n.Mentions namespaces) :=
  inferInstanceAs (Decidable (∃ name ∈ n.memberName?, ∃ part ∈ namespaces, part <:+: name))

/-- A method that does not say what it returns gets an empty `returns`, which stands where the
member itself stands. -/
inductive Completed : Node → Node → Prop
  | returns {tag : StartTag} {children : List Node} (h : (element tag children).LacksReturns) :
    Completed (.element tag children)
      (.element tag (children ++ [.element ⟨"returns", [], tag.position⟩ []]))
  | same {n : Node} (h : ¬ n.LacksReturns) : Completed n n

theorem isMemberWith_eq (p : Text → Bool) (n : Node) : n.isMemberWith p = n.memberName?.any p := by
  cases n with
  | text content => rfl
  | element tag children =>
    by_cases ht : tag.name = "member"
    · simp [isMemberWith, element?, memberName?, Element.name, ht]
    · rw [memberName?, if_neg ht]
      change (decide (tag.name = "member") && _) = false
      rw [decide_eq_false ht, Bool.false_and]

theorem isMemberWith_iff {p : Text → Bool} {n : Node} :
    n.isMemberWith p = true ↔ ∃ name ∈ n.memberName?, p name = true := by
  rw [isMemberWith_eq, Option.any_eq_true]
  rfl

theorem isAssemblyDoc_iff {n : Node} : Document.isAssemblyDoc n = true ↔ n.DescribesAssembly := by
  simp only [Document.isAssemblyDoc, isMemberWith_iff, Text.holds_iff]
  rfl

theorem mentions_iff {namespaces : List Text} {n : Node} :
    n.isMemberWith (fun name => namespaces.any (Text.holds · name)) = true ↔
      n.Mentions namespaces := by
  simp only [isMemberWith_iff, List.any_eq_true, Text.holds_iff]
  rfl

end Node

namespace Kind

theorem ofOpening?_eq_method {name : Text} :
    ofOpening? name = some .method ↔ ("M:" : Text) <+: name ∨ ("m:" : Text) <+: name := by
  have hletter (c : Char) : ofLetter? c = some .method ↔ c = 'M' ∨ c = 'm' := ofLetter?_eq_some_iff
  unfold ofOpening?
  split
  · next c rest =>
    rw [hletter]
    simp [List.cons_prefix_cons, eq_comm]
  · next hne =>
    simp only [reduceCtorEq, false_iff]
    rintro (⟨rest, rfl⟩ | ⟨rest, rfl⟩)
    · exact hne _ _ rfl
    · exact hne _ _ rfl

end Kind

namespace Node

theorem lacksReturns_iff {tag : StartTag} {children : List Node} :
    (element tag children).LacksReturns ↔
      ((element tag children).isMemberWith (Kind.ofOpening? · = some .method) &&
        !children.any (isNamed "returns")) = true := by
  simp only [LacksReturns, Node.children, Bool.and_eq_true, isMemberWith_iff, decide_eq_true_eq,
    Kind.ofOpening?_eq_method, Bool.not_eq_true', List.any_eq_false, Bool.not_eq_true]

theorem completed_withReturns (n : Node) : Completed n n.withReturns := by
  cases n with
  | text content =>
    apply Completed.same
    rintro ⟨⟨name, hname, -⟩, -⟩
    cases hname
  | element tag children =>
    by_cases h : (element tag children).LacksReturns
    · have hgain := lacksReturns_iff.1 h
      rw [withReturns, if_pos hgain]
      exact .returns h
    · have hkeep := fun hgain => h (lacksReturns_iff.2 hgain)
      rw [withReturns, if_neg hkeep]
      exact .same h

theorem Completed.memberName?_eq {n m : Node} (h : Completed n m) : m.memberName? = n.memberName? := by
  cases h <;> rfl

theorem Completed.not_lacksReturns {n m : Node} (h : Completed n m) : ¬ m.LacksReturns := by
  cases h with
  | returns h =>
    rintro ⟨-, hnone⟩
    have := hnone _ List.mem_concat_self
    cases this
  | same h => exact h

theorem Completed.eq_of_not {n m : Node} (h : Completed n m) (hn : ¬ n.LacksReturns) : m = n := by
  cases h with
  | returns h => exact absurd h hn
  | same => rfl

theorem memberName?_withReturns (n : Node) : n.withReturns.memberName? = n.memberName? :=
  n.completed_withReturns.memberName?_eq

theorem withReturns_withReturns (n : Node) : n.withReturns.withReturns = n.withReturns :=
  (completed_withReturns _).eq_of_not (completed_withReturns n).not_lacksReturns

end Node

namespace Document

variable {namespaces : List Text} {name other : Text} {f g : List Node → List Node}

def tidy (namespaces : List Text) (nodes : List Node) : List Node :=
  (nodes.filter fun n => ¬ n.DescribesAssembly ∧ ¬ n.Mentions namespaces).map Node.withReturns

theorem tidy_tidy (namespaces : List Text) (nodes : List Node) :
    tidy namespaces (tidy namespaces nodes) = tidy namespaces nodes := by
  unfold tidy
  rw [List.filter_map, List.map_map, List.filter_filter]
  congr 1
  · funext n
    exact n.withReturns_withReturns
  · apply List.filter_congr
    intro n _
    simp [Node.DescribesAssembly, Node.Mentions, Node.memberName?_withReturns]

theorem updateFirst_updateFirst (d : Document) :
    (d.updateFirst name f).updateFirst name g = d.updateFirst name (g ∘ f) := by
  simp only [updateFirst, Node.updateFirst_updateFirst]

theorem updateFirst_comm (h : name ≠ other) (d : Document) :
    (d.updateFirst other g).updateFirst name f = (d.updateFirst name f).updateFirst other g := by
  simp only [updateFirst, Node.updateFirst_comm h]

theorem memberNodes_eq (d : Document) :
    d.memberNodes = ((d.root.children.find? (Node.isNamed "members")).map Node.children).getD [] := by
  rw [memberNodes, Element.child?, Element.elements, ← Node.find?_elements]
  cases d.root.children.find? (Node.isNamed "members") with
  | none => rfl
  | some n => cases n <;> rfl

def moved (d : Document) : List Node :=
  (d.memberNodes.filter fun n => n.DescribesAssembly).flatMap Node.children

theorem filter_isAssemblyDoc (nodes : List Node) :
    nodes.filter isAssemblyDoc = nodes.filter fun n => n.DescribesAssembly := by
  apply List.filter_congr
  intro n _
  rw [Bool.eq_iff_iff, decide_eq_true_eq, Node.isAssemblyDoc_iff]

theorem prepare_eq (namespaces : List Text) (d : Document) :
    d.prepare namespaces =
      (d.updateFirst "members" (tidy namespaces)).updateFirst "assembly" (· ++ d.moved) := by
  let unmarked (nodes : List Node) := nodes.filter (!isAssemblyDoc ·)
  let unmentioned (nodes : List Node) :=
    nodes.filter (!Node.isMemberWith (fun name => namespaces.any (Text.holds · name)) ·)
  have htidy : (List.map Node.withReturns ∘ unmentioned) ∘ unmarked = tidy namespaces := by
    funext nodes
    simp only [Function.comp_apply, unmentioned, unmarked, List.filter_filter, tidy]
    congr 1
    apply List.filter_congr
    intro n _
    rw [Bool.eq_iff_iff]
    simp [← Node.isAssemblyDoc_iff, ← Node.mentions_iff, and_comm]
  have hne : ("members" : Text) ≠ "assembly" := by decide
  rw [← htidy, moved, ← filter_isAssemblyDoc, ← updateFirst_updateFirst, ← updateFirst_comm hne,
    ← updateFirst_updateFirst]
  rfl

theorem memberNodes_prepare (namespaces : List Text) (d : Document) :
    (d.prepare namespaces).memberNodes = tidy namespaces d.memberNodes := by
  have hne : ("members" : Text) ≠ "assembly" := by decide
  have hchildren (n : Node) :
      (n.mapChildren (tidy namespaces)).children = tidy namespaces n.children := by
    cases n <;> rfl
  rw [prepare_eq, ← updateFirst_comm hne, memberNodes_eq, memberNodes_eq, updateFirst, updateFirst,
    Node.find?_updateFirst, Node.find?_updateFirst_of_ne hne, Option.map_map]
  cases d.root.children.find? (Node.isNamed "members") with
  | none => rfl
  | some n => exact hchildren n

theorem moved_prepare (namespaces : List Text) (d : Document) : (d.prepare namespaces).moved = [] := by
  have hnone : (d.prepare namespaces).memberNodes.filter (fun n => n.DescribesAssembly) = [] := by
    rw [memberNodes_prepare, List.filter_eq_nil_iff]
    intro n hn
    obtain ⟨m, hm, rfl⟩ := List.mem_map.1 hn
    have hkept := of_decide_eq_true (List.mem_filter.1 hm).2
    rw [decide_eq_true_eq, Node.DescribesAssembly, Node.memberName?_withReturns]
    exact hkept.1
  rw [moved, hnone, List.flatMap_nil]

theorem prepare_prepare (namespaces : List Text) (d : Document) :
    (d.prepare namespaces).prepare namespaces = d.prepare namespaces := by
  have hnothing : (· ++ (d.prepare namespaces).moved) = (id : List Node → List Node) := by
    rw [moved_prepare]
    funext nodes
    exact List.append_nil nodes
  have htidy : tidy namespaces ∘ tidy namespaces = tidy namespaces := by
    funext nodes
    exact tidy_tidy namespaces nodes
  have hne : ("members" : Text) ≠ "assembly" := by decide
  have hid (e : Document) : e.updateFirst "assembly" id = e := by
    rw [updateFirst, Node.updateFirst_id]
  calc (d.prepare namespaces).prepare namespaces
      = (d.prepare namespaces).updateFirst "members" (tidy namespaces) := by
        rw [prepare_eq, hnothing, hid]
    _ = d.prepare namespaces := by
        rw [prepare_eq, updateFirst_comm hne, updateFirst_updateFirst, htidy]

theorem prepare_in_three_steps (namespaces : List Text) (d : Document) :
    (∀ assembly members : Element, d.root.child? "assembly" = some assembly →
      d.root.child? "members" = some members →
      let place (name : Text) := d.root.children.findIdx (Node.isNamed name)
      let kept := members.children.filter fun n => ¬ n.DescribesAssembly ∧ ¬ n.Mentions namespaces
      let moved := (members.children.filter fun n => n.DescribesAssembly).flatMap Node.children
      let prepared := (d.prepare namespaces).root
      prepared.tag = d.root.tag ∧
      ∃ completed, List.Forall₂ Node.Completed kept completed ∧
        ∀ i : Nat, prepared.children[i]? =
          if i = place "assembly" then some (.element assembly.tag (assembly.children ++ moved))
          else if i = place "members" then some (.element members.tag completed)
          else d.root.children[i]?) ∧
    (d.prepare namespaces).prepare namespaces = d.prepare namespaces := by
  refine ⟨?_, prepare_prepare namespaces d⟩
  intro assembly members ha hm place kept moved prepared
  have hne : ("assembly" : Text) ≠ "members" := by decide
  have hat {name : Text} {e : Element} (h : d.root.child? name = some e) :
      d.root.children[place name]? = some e.toNode := by
    rw [Element.child?, Element.elements, ← Node.find?_elements, List.find?_eq_getElem?_findIdx] at h
    obtain ⟨n, hn, he⟩ := Option.bind_eq_some_iff.1 h
    cases n with
    | text => cases he
    | element tag children =>
      cases he
      exact hn
  have hplaces : place "assembly" ≠ place "members" := Node.findIdx_ne hne (hat ha)
  have hmoved : d.moved = moved := by
    rw [Document.moved, memberNodes, hm]
  have hprepared : prepared.children = Node.updateFirst "assembly" (· ++ moved)
      (Node.updateFirst "members" (tidy namespaces) d.root.children) := by
    rw [← hmoved]
    exact congrArg (·.root.children) (prepare_eq namespaces d)
  refine ⟨congrArg (·.root.tag) (prepare_eq namespaces d), tidy namespaces members.children, ?_, ?_⟩
  · apply List.forall₂_map_right_iff.2
    apply List.forall₂_same.2
    intro n _
    exact n.completed_withReturns
  · intro i
    rw [hprepared, Node.getElem?_updateFirst, Node.findIdx_updateFirst, Node.getElem?_updateFirst]
    by_cases hia : i = place "assembly"
    · rw [if_pos hia, if_pos hia, if_neg (hia ▸ hplaces), hia, hat ha]
      rfl
    · rw [if_neg hia, if_neg hia]
      by_cases him : i = place "members"
      · rw [if_pos him, if_pos him, him, hat hm]
        rfl
      · rw [if_neg him, if_neg him]

def memberNode (name : Text) (children : List Node) : Node :=
  .element ⟨"member", [("name", name)], ⟨4, 5⟩⟩ children

theorem prepare_in_three_steps_marked :
    let marker := memberNode "T:Old.AssemblyDoc" [.text "Tools."]
    let spin := memberNode "m:Spin(" [.text "Spins."]
    let part := memberNode "T:Old.Part" []
    let members : Element := ⟨⟨"members", [], ⟨2, 1⟩⟩, [marker, .text " ", spin, part]⟩
    let assembly : Element := ⟨⟨"assembly", [], ⟨9, 1⟩⟩, [.text "Acme"]⟩
    let d : Document := ⟨⟨⟨"doc", [], ⟨1, 1⟩⟩, [members.toNode, .text " ", assembly.toNode]⟩⟩
    let prepared := d.prepare ["Old"]
    d.root.child? "assembly" = some assembly ∧ d.root.child? "members" = some members ∧
      (∃ completed, List.Forall₂ Node.Completed [.text " ", spin] completed ∧
        prepared.root.children[0]? = some (.element members.tag completed)) ∧
      prepared.root.children[1]? = some (.text " ") ∧
      prepared.root.children[2]? = some (.element assembly.tag [.text "Acme", .text "Tools."]) ∧
      prepared.prepare ["Old"] = prepared := by
  intro marker spin part members assembly d prepared
  have ha : d.root.child? "assembly" = some assembly := rfl
  have hm : d.root.child? "members" = some members := rfl
  have hassembly : d.root.children.findIdx (Node.isNamed "assembly") = 2 := by decide +kernel
  have hmembers : d.root.children.findIdx (Node.isNamed "members") = 0 := by decide +kernel
  have hmarker : marker.DescribesAssembly := by decide +kernel
  have hspace : ¬ (Node.text " ").DescribesAssembly ∧ ¬ (Node.text " ").Mentions ["Old"] := by
    decide +kernel
  have hspin : ¬ spin.DescribesAssembly ∧ ¬ spin.Mentions ["Old"] := by decide +kernel
  have hpart : ¬ part.DescribesAssembly ∧ part.Mentions ["Old"] := by decide +kernel
  have hkept : (members.children.filter fun n => ¬ n.DescribesAssembly ∧ ¬ n.Mentions ["Old"]) =
      [.text " ", spin] := by
    simp only [members, List.filter_cons, hmarker, hspace, hspin, hpart]
    rfl
  have hmoved : (members.children.filter fun n => n.DescribesAssembly).flatMap Node.children =
      [.text "Tools."] := by
    simp only [members, List.filter_cons, hmarker, hspace, hspin, hpart]
    rfl
  obtain ⟨hsteps, hagain⟩ := prepare_in_three_steps ["Old"] d
  obtain ⟨-, completed, hcompleted, hat⟩ := hsteps assembly members ha hm
  rw [hkept] at hcompleted
  simp only [hmoved, hassembly, hmembers] at hat
  exact ⟨ha, hm, ⟨completed, hcompleted, hat 0⟩, hat 1, hat 2, hagain⟩

end Document
end Docmark
