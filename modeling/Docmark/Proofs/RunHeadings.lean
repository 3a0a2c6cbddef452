import Docmark.Proofs.LineBreaks
import Docmark.Proofs.Transparency

namespace Docmark

namespace Siblings

def along (s : Siblings) (ctx : Context) : List Node → List (Siblings × Node)
  | [] => []
  | n :: nodes => (s, n) :: (s.past ctx n).along ctx nodes

theorem map_snd_along (s : Siblings) (ctx : Context) (nodes : List Node) :
    (s.along ctx nodes).map (·.2) = nodes := by
  induction nodes generalizing s with
  | nil => rfl
  | cons n nodes ih => rw [along, List.map_cons, ih]

theorem getElem?_along (s : Siblings) (ctx : Context) (nodes : List Node) (i : Nat) :
    (s.along ctx nodes)[i]? = nodes[i]?.map (s.pastAll ctx (nodes.take i), ·) := by
  induction nodes generalizing s i with
  | nil => rfl
  | cons n nodes ih =>
    cases i with
    | zero => rfl
    | succ i =>
      rw [along, List.getElem?_cons_succ, List.getElem?_cons_succ, ih]
      rfl

end Siblings

theorem Node.renderAll_eq_concat (s : Siblings) (ctx : Context) (nodes : List Node) :
    renderAll s ctx nodes = .concat ((s.along ctx nodes).map fun x => x.2.render x.1 ctx) := by
  induction nodes generalizing s with
  | nil => rfl
  | cons n nodes ih => rw [renderAll, ih, Siblings.along, List.map_cons, Outcome.concat]

section

variable {tag name : Text}

/-- Whether each occurrence of a tag in a list of names opens a run, where `previous` stands in front
of the list. -/
def openings (tag : Text) (previous : Option Text) : List Text → List Bool
  | [] => []
  | name :: names =>
    if name = tag then (previous != some tag) :: openings tag (some name) names
    else openings tag (some name) names

theorem openings_replicate (n : Nat) (names : List Text) :
    openings tag (some tag) (List.replicate n tag ++ names) =
      List.replicate n false ++ openings tag (some tag) names := by
  induction n with
  | zero => rfl
  | succ n ih =>
    rw [List.replicate_succ, List.cons_append, openings, if_pos rfl, ih, bne_self_eq_false]
    rfl

theorem openings_replicate_of_ne (h : name ≠ tag) (previous : Option Text) (n : Nat)
    (names : List Text) :
    openings tag previous (List.replicate (n + 1) name ++ names) = openings tag (some name) names := by
  induction n generalizing previous with
  | zero => exact if_neg h
  | succ n ih => rw [List.replicate_succ, List.cons_append, openings, if_neg h, ih]

def runMarks (run : List Text) : List Bool :=
  run.mapIdx fun k _ => k == 0

theorem runMarks_cons (name : Text) (names : List Text) :
    runMarks (name :: names) = true :: List.replicate names.length false := by
  have hrest : names.mapIdx (fun k _ => k + 1 == 0) = List.replicate names.length false :=
    List.mapIdx_eq_replicate_iff.2 fun _ _ => rfl
  rw [runMarks, List.mapIdx_cons, hrest]
  rfl

theorem count_runMarks {run : List Text} (h : run ≠ []) : (runMarks run).count true = 1 := by
  obtain ⟨name, names, rfl⟩ := List.exists_cons_of_ne_nil h
  have hrest : (List.replicate names.length false).count true = 0 := by
    rw [List.count_replicate]
    rfl
  rw [runMarks_cons, List.count_cons_self, hrest]

theorem openings_flatten {runs : List (List Text)} (hne : [] ∉ runs)
    (hsame : ∀ run ∈ runs, run.IsChain fun m n => (m == n) = true)
    (hapart : runs.IsChain fun r s => ∃ hr hs, (r.getLast hr == s.head hs) = false)
    {previous : Option Text} (hfirst : ∀ run ∈ runs.head?, ∀ name ∈ run.head?, previous ≠ some name) :
    openings tag previous runs.flatten = (runs.filter (tag ∈ ·)).flatMap runMarks := by
  induction runs generalizing previous with
  | nil => rfl
  | cons run runs ih =>
    rw [List.mem_cons, not_or] at hne
    obtain ⟨name, names, rfl⟩ := List.exists_cons_of_ne_nil (Ne.symm hne.1)
    have hrun := Text.eq_replicate_of_isChain (hsame _ List.mem_cons_self)
    have hnext : ∀ run ∈ runs.head?, ∀ other ∈ run.head?, some name ≠ some other := by
      rintro run hr other ho ⟨⟩
      obtain ⟨_, _, hlast⟩ := (List.isChain_cons.1 hapart).1 run hr
      obtain ⟨behind, rfl⟩ := List.head?_eq_some_iff.1 ho
      simp [hrun] at hlast
    have hmore := ih hne.2 (fun run hr => hsame run (List.mem_cons_of_mem _ hr))
      (List.isChain_cons.1 hapart).2 hnext
    have hopens : previous ≠ some name := hfirst _ rfl name rfl
    rw [List.flatten_cons, hrun]
    by_cases htag : name = tag
    · subst htag
      have hmem : decide (name ∈ List.replicate (names.length + 1) name) = true := by simp
      rw [List.filter_cons, if_pos hmem, List.flatMap_cons, List.replicate_succ, List.cons_append,
        openings, if_pos rfl, bne_iff_ne.2 hopens, openings_replicate, hmore, runMarks_cons,
        List.length_replicate, List.cons_append]
    · have hmem : ¬ decide (tag ∈ List.replicate (names.length + 1) name) = true := by
        simpa using fun h => htag h.symm
      rw [List.filter_cons, if_neg hmem, openings_replicate_of_ne htag, hmore]

theorem openings_eq (tag : Text) (names : List Text) :
    openings tag none names = ((names.splitBy (· == ·)).filter (tag ∈ ·)).flatMap runMarks := by
  have hruns : openings tag none (names.splitBy (· == ·)).flatten =
      ((names.splitBy (· == ·)).filter (tag ∈ ·)).flatMap runMarks :=
    openings_flatten (List.nil_notMem_splitBy _ names) (fun _ => List.isChain_of_mem_splitBy)
      (List.isChain_getLast_head_splitBy _ names) fun _ _ _ _ => (Option.some_ne_none _).symm
  rwa [List.flatten_splitBy] at hruns

theorem count_flatMap_runMarks {runs : List (List Text)} (h : [] ∉ runs) :
    (runs.flatMap runMarks).count true = runs.length := by
  induction runs with
  | nil => rfl
  | cons run runs ih =>
    rw [List.mem_cons, not_or] at h
    rw [List.flatMap_cons, List.count_append, count_runMarks (Ne.symm h.1), ih h.2, List.length_cons,
      Nat.add_comm]

end

namespace Key

theorem ne_of_mem_runKeys {tag : Text} {k : Bool → Key} (h : (tag, k) ∈ runKeys) :
    k true ≠ k false := by
  simp only [runKeys, List.mem_cons, List.not_mem_nil, or_false, Prod.mk.injEq] at h
  rcases h with ⟨-, rfl⟩ | ⟨-, rfl⟩ | ⟨-, rfl⟩ <;> decide

theorem ne_member_of_mem_runKeys {tag : Text} {k : Bool → Key} (h : (tag, k) ∈ runKeys) :
    tag ≠ "member" := by
  have hmem : tag ∈ runTags := List.mem_map_of_mem (f := Prod.fst) h
  rintro rfl
  exact absurd hmem (by decide)

theorem Runs.of?_iff {tag : Text} {k : Bool → Key} (h : Runs tag k) (hk : k true ≠ k false)
    {s : Siblings} {ctx : Context} {e : Element} (he : e.name = tag) :
    of? s ctx e = some (k true) ↔ s.previous ≠ some tag := by
  rw [h.of?_eq s ctx e he, Option.some.injEq, he]
  cases hs : s.previous != some tag with
  | true => exact iff_of_true rfl (bne_iff_ne.1 hs)
  | false => exact iff_of_false (Ne.symm hk) (not_not_intro (bne_eq_false_iff_eq.1 hs))

theorem Runs.render_eq {tag : Text} {k : Bool → Key} (h : Runs tag k) {s : Siblings} {ctx : Context}
    {e : Element} {first : Bool} (he : e.name = tag) (hm : tag ≠ "member")
    (hkey : of? s ctx e = some (k first)) :
    e.toNode.render s ctx = (k first).rule.apply e e.parts ctx := by
  rw [Element.render_of_key (he ▸ hm) hkey, Context.under, h.isMember_eq first]
  rfl

theorem Runs.apply_rule_eq {tag : Text} {k : Bool → Key} (h : Runs tag k) (first : Bool) (e : Element)
    (parts : Parts) (ctx : Context) : (k first).rule.apply e parts ctx =
      ((if first then runHeading tag else []) ++ ·) <$> (k false).rule.apply e parts ctx := by
  cases first with
  | true => rw [h.rule_eq, Rule.apply_headed (not_mem_runHeading tag), if_pos rfl]
  | false => exact (Outcome.id_map _).symm

end Key

def Siblings.headings (tag : Text) (key : Key) (ctx : Context) (steps : List (Siblings × Node)) :
    List Bool :=
  steps.filterMap fun (s, n) => (n.element?.filter (·.name = tag)).map fun e =>
    decide (Key.of? s ctx e = some key)

theorem Siblings.headings_cons (tag : Text) (key : Key) (ctx : Context) (s : Siblings) (e : Element)
    (steps : List (Siblings × Node)) : headings tag key ctx ((s, e.toNode) :: steps) =
      if e.name = tag then decide (Key.of? s ctx e = some key) :: headings tag key ctx steps
      else headings tag key ctx steps := by
  by_cases he : e.name = tag <;> simp [headings, Option.filter, he]

theorem Siblings.headings_along {tag : Text} {k : Bool → Key} (h : Key.Runs tag k)
    (hk : k true ≠ k false) (ctx : Context) (s : Siblings) (nodes : List Node) :
    headings tag (k true) ctx (s.along ctx nodes) =
      openings tag s.previous ((nodes.filterMap Node.element?).map Element.name) := by
  induction nodes generalizing s with
  | nil => rfl
  | cons n nodes ih =>
    cases n with
    | text content => exact ih _
    | element tag' children =>
      let e : Element := ⟨tag', children⟩
      have hmore : headings tag (k true) ctx ((s.past ctx e.toNode).along ctx nodes) =
          openings tag (some e.name) ((nodes.filterMap Node.element?).map Element.name) := ih _
      change headings tag (k true) ctx ((s, e.toNode) :: (s.past ctx e.toNode).along ctx nodes) = _
      rw [headings_cons, Node.elements_cons, List.map_cons, openings, hmore]
      by_cases he : e.name = tag
      · have hfirst : decide (Key.of? s ctx e = some (k true)) = (s.previous != some tag) := by
          rw [Bool.eq_iff_iff, decide_eq_true_iff, h.of?_iff hk he, bne_iff_ne]
        rw [if_pos he, if_pos he, hfirst]
      · rw [if_neg he, if_neg he]

namespace Node

theorem one_heading_per_run {tag : Text} {key : Bool → Key} (h : (tag, key) ∈ Key.runKeys) :
    key true ≠ key false ∧ (key true).rule = (key false).rule.headed (Key.runHeading tag) ∧
      ∀ (parent : Option Element) (ctx : Context) (nodes : List Node),
        let start : Siblings := ⟨parent, none, none⟩
        let steps := start.along ctx nodes
        let names := (nodes.filterMap element?).map Element.name
        let runs := (names.splitBy (· == ·)).filter (tag ∈ ·)
        let headings := Siblings.headings tag (key true) ctx steps
        (renderAll start ctx nodes = .concat (steps.map fun (s, n) => n.render s ctx) ∧
          steps.map (·.2) = nodes) ∧
        (∀ i s e, steps[i]? = some (s, e.toNode) → e.name = tag →
          let previous := ((nodes.take i).filterMap element?).getLast?
          ∃ first, (first = true ↔ ∀ p ∈ previous, p.name ≠ tag) ∧
            Key.of? s ctx e = some (key first) ∧
            e.toNode.render s ctx = (key first).rule.apply e e.parts ctx ∧
            e.toNode.render s ctx =
              ((if first then Key.runHeading tag else []) ++ ·) <$> (key false).rule.apply e e.parts ctx) ∧
        headings = runs.flatMap (fun run => run.mapIdx fun k _ => k == 0) ∧
        headings.count true = runs.length := by
  have hruns := Key.runs_of_mem_runKeys h
  have hne := Key.ne_of_mem_runKeys h
  refine ⟨hne, hruns.rule_eq, fun parent ctx nodes => ?_⟩
  intro start steps names runs headings
  have hheadings : headings = runs.flatMap runMarks :=
    (Siblings.headings_along hruns hne ctx start nodes).trans (openings_eq tag names)
  refine ⟨⟨renderAll_eq_concat start ctx nodes, start.map_snd_along ctx nodes⟩, ?_, hheadings, ?_⟩
  · intro i s e hi he previous
    rw [Siblings.getElem?_along, Option.map_eq_some_iff] at hi
    obtain ⟨n, -, hn⟩ := hi
    cases hn
    have hprevious := Siblings.previous_pastAll start ctx (nodes.take i)
    have hkey := hruns.of?_eq (start.pastAll ctx (nodes.take i)) ctx e he
    have hrender := hruns.render_eq he (Key.ne_member_of_mem_runKeys h) hkey
    refine ⟨_, ?_, hkey, hrender, hrender.trans (hruns.apply_rule_eq _ e e.parts ctx)⟩
    rw [hprevious, he, bne_iff_ne]
    cases hlast : previous with
    | none => simp [previous, hlast, start]
    | some p => simp [previous, hlast, start]
  · rw [hheadings]
    apply count_flatMap_runMarks
    intro hnil
    exact List.nil_notMem_splitBy _ names (List.mem_of_mem_filter hnil)

theorem one_heading_per_run_parameters :
    let param (name : Text) : Node := .element ⟨"param", [("name", name)], ⟨1, 1⟩⟩ []
    let hidden : Node := .element ⟨"member", [("name", "P:A.Secret")], ⟨2, 1⟩⟩ []
    let nodes := [param "x", .text " and ", param "y", hidden, param "z"]
    let headings := Siblings.headings "param" (.param true) secretive
      (Siblings.start.along secretive nodes)
    (("param" : Text), Key.param) ∈ Key.runKeys ∧ headings = [true, false, true] ∧ headings.count true = 2 := by
  intro param hidden nodes headings
  have hmem : (("param" : Text), Key.param) ∈ Key.runKeys := List.mem_cons_self
  obtain ⟨-, -, hall⟩ := one_heading_per_run hmem
  obtain ⟨-, -, hheadings, hcount⟩ := hall none secretive nodes
  exact ⟨hmem, hheadings.trans (by decide), hcount.trans (by decide)⟩

end Node
end Docmark
