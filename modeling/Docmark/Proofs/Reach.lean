import Docmark.Proofs.Sections
import Docmark.Proofs.Tree

/-!
Which elements the walk over a page comes to, and in what order. Elements are told apart by their
addresses, since equal ones may stand in several places.
-/

namespace Docmark

/-- The way down to an element: at each step, which of the children to go into. -/
abbrev Address := List Nat

def Resolver.hides (r : Resolver) (e : Element) : Bool :=
  match (e.attr? "name").bind MemberId.parse? with
  | some id => !(id.isConstructor || r.isPublic id)
  | none => false

theorem Resolver.hides_eq (ctx : Context) (e : Element) : ctx.resolver.hides e = ctx.isHidden e :=
  rfl

namespace Element

def at? (e : Element) : Address → Option Element
  | [] => some e
  | i :: a => (e.children[i]?.bind Node.element?).bind (·.at? a)

def placed (e : Element) : List (Address × Element) :=
  e.children.zipIdx.filterMap fun (n, i) => n.element?.map ([i], ·)

def first? (e : Element) (name : Text) : Option (Address × Element) :=
  e.placed.find? (·.2.name = name)

def isUnknown (e : Element) : Bool :=
  e.name ≠ "member" && e.name ≠ "see" && (Key.ofTag? e.name).isNone

theorem ne_of_isUnknown {e : Element} (h : e.isUnknown = true) {tag : Text}
    (ht : tag = "member" ∨ tag = "see" ∨ (Key.ofTag? tag).isSome = true) : e.name ≠ tag := by
  rintro rfl
  simp only [isUnknown, Bool.and_eq_true, decide_eq_true_eq] at h
  obtain ⟨⟨hm, hs⟩, hn⟩ := h
  rcases ht with ht | ht | ht
  · exact hm ht
  · exact hs ht
  · rw [Option.isNone_iff_eq_none] at hn
    rw [hn] at ht
    cases ht

theorem key_eq_none_iff (s : Siblings) (ctx : Context) {e : Element} :
    Key.of? s ctx e = none ↔ e.isUnknown = true := by
  unfold Key.of? isUnknown
  by_cases hm : e.name = "member"
  · simp [hm]
  · by_cases hs : e.name = "see"
    · simp [hs]
    · rw [if_neg hm, if_neg hs]
      split <;> simp_all

def report (e : Element) : UnknownTag :=
  ⟨e.name, e.tag.position⟩

def isKindless (e : Element) : Bool :=
  e.kind? = some .scope ||
    e.kind? = none && (e.attr? "name").all fun raw => raw.tail.head? = some ':'

def closedTags : List Text := [
  "name", "none", "nameremarks", "code", "see", "seePage", "seeAnchor", "seeLangword", "seealso",
  "firstseealso", "exception", "returns", "a"]

def isClosed (r : Resolver) (e : Element) : Bool :=
  if e.name = "member" then r.hides e || e.isKindless
  else if e.name = "remarks" then e.textContent.isEmpty
  else e.isUnknown || closedTags.contains e.name

def passes (r : Resolver) (e : Element) : List (Address × Element) :=
  if e.name = "doc" then
    (e.first? "assembly").toList ++ (e.first? "members").toList.flatMap fun (a, members) =>
      (members.placed.filter (·.2.name = ("member" : Text))).map fun (b, m) => (a ++ b, m)
  else if e.isClosed r then [] else e.placed

theorem at?_append (e : Element) (a b : Address) : e.at? (a ++ b) = (e.at? a).bind (·.at? b) := by
  induction a generalizing e with
  | nil => rfl
  | cons i a ih =>
    simp only [List.cons_append, at?, Option.bind_assoc, ih]

theorem mem_placed {e : Element} {x : Address × Element} (h : x ∈ e.placed) :
    x.2.toNode ∈ e.children ∧ e.at? x.1 = some x.2 := by
  obtain ⟨⟨n, i⟩, hn, hx⟩ := List.mem_filterMap.1 h
  obtain ⟨y, hy, rfl⟩ := Option.map_eq_some_iff.1 hx
  have hi : e.children[i]? = some n := List.mem_zipIdx_iff_getElem?.1 hn
  cases n with
  | text => cases hy
  | element tag children =>
    cases hy
    refine ⟨List.mem_of_getElem? hi, ?_⟩
    simp only [at?, hi]
    rfl

theorem map_snd_placed (e : Element) : e.placed.map (·.2) = e.elements := by
  rw [placed, elements, List.map_filterMap]
  conv_rhs => rw [← List.zipIdx_map_fst 0 e.children, List.filterMap_map]
  congr 1
  funext x
  cases hx : x.1.element? <;> simp [hx]

theorem first?_map_snd (e : Element) (name : Text) :
    (e.first? name).map (·.2) = e.child? name := by
  rw [first?, child?, ← map_snd_placed, List.find?_map]
  rfl

theorem map_snd_passes (r : Resolver) (e : Element) : (e.passes r).map (·.2) =
    if e.name = "doc" then
      (e.child? "assembly").toList ++
        (e.child? "members").toList.flatMap (·.childrenNamed "member")
    else if e.isClosed r then [] else e.elements := by
  have hmembers (a : Address) (e : Element) :
      ((e.placed.filter (·.2.name = ("member" : Text))).map fun (b, m) => (a ++ b, m)).map (·.2) =
        e.childrenNamed "member" := by
    rw [childrenNamed, ← map_snd_placed, List.filter_map, List.map_map]
    rfl
  rw [passes]
  split
  · rw [List.map_append, ← first?_map_snd, ← first?_map_snd, Option.toList_map, Option.toList_map,
      List.map_flatMap, List.flatMap_map]
    simp only [hmembers]
  · split
    · rfl
    · exact map_snd_placed e

theorem mem_of_first? {e : Element} {name : Text} {x : Address × Element}
    (h : e.first? name = some x) : x ∈ e.placed ∧ x.2.name = name := by
  have hname := List.find?_some h
  exact ⟨List.mem_of_find?_eq_some h, of_decide_eq_true hname⟩

theorem mem_passes {r : Resolver} {e : Element} {x : Address × Element} (h : x ∈ e.passes r) :
    sizeOf x.2 < sizeOf e ∧ e.at? x.1 = some x.2 := by
  have hplaced : ∀ {e : Element} {x : Address × Element}, x ∈ e.placed →
      sizeOf x.2 < sizeOf e ∧ e.at? x.1 = some x.2 := by
    intro e x hx
    obtain ⟨hchild, hat⟩ := mem_placed hx
    refine ⟨?_, hat⟩
    have hsize := List.sizeOf_lt_of_mem hchild
    obtain ⟨tag, children⟩ := e
    obtain ⟨_, tag', children'⟩ := x
    simp only [toNode, Node.element.sizeOf_spec, mk.sizeOf_spec] at hsize ⊢
    omega
  rw [passes] at h
  split at h
  · rcases List.mem_append.1 h with h | h
    · exact hplaced (mem_of_first? (Option.mem_toList.1 h)).1
    · obtain ⟨⟨a, members⟩, hmembers, hx⟩ := List.mem_flatMap.1 h
      obtain ⟨⟨b, m⟩, hm, rfl⟩ := List.mem_map.1 hx
      obtain ⟨hsize, hat⟩ := hplaced (mem_of_first? (Option.mem_toList.1 hmembers)).1
      obtain ⟨hsize', hat'⟩ := hplaced (List.mem_filter.1 hm).1
      refine ⟨Nat.lt_trans hsize' hsize, ?_⟩
      dsimp only at hat hat' ⊢
      rw [at?_append, hat, Option.bind_some, hat']
  · split at h
    · cases h
    · exact hplaced h

theorem ne_nil_of_mem_passes {r : Resolver} {e : Element} {x : Address × Element}
    (h : x ∈ e.passes r) : x.1 ≠ [] := by
  intro ha
  obtain ⟨hsize, hat⟩ := mem_passes h
  rw [ha, at?, Option.some.injEq] at hat
  rw [← hat] at hsize
  exact Nat.lt_irrefl _ hsize

def walk (r : Resolver) (e : Element) : List (Address × Element) :=
  ([], e) :: (e.passes r).attach.flatMap fun x => (walk r x.1.2).map fun y => (x.1.1 ++ y.1, y.2)
termination_by sizeOf e
decreasing_by exact (mem_passes x.2).1

theorem walk_eq (r : Resolver) (e : Element) : e.walk r = ([], e) ::
    (e.passes r).flatMap fun x => (x.2.walk r).map fun y => (x.1 ++ y.1, y.2) := by
  conv_rhs => rw [← List.attach_map_subtype_val (e.passes r), List.flatMap_map]
  rw [walk]

def reports (r : Resolver) (e : Element) : List UnknownTag :=
  ((e.walk r).filter (·.2.isUnknown)).map (·.2.report)

theorem reports_eq (r : Resolver) (e : Element) : e.reports r =
    (if e.isUnknown then [e.report] else []) ++ ((e.passes r).map (·.2)).flatMap (reports r) := by
  rw [reports, walk_eq, List.filter_cons, List.filter_flatMap, List.flatMap_map]
  have hbelow : ((e.passes r).flatMap fun x => ((x.2.walk r).map fun y => (x.1 ++ y.1, y.2)).filter
      (·.2.isUnknown)).map (·.2.report) = (e.passes r).flatMap fun x => x.2.reports r := by
    rw [List.map_flatMap]
    congr 1
    funext x
    rw [List.filter_map, List.map_map]
    rfl
  dsimp only
  split
  · rw [List.map_cons, hbelow]
    rfl
  · exact hbelow

inductive Reachable (r : Resolver) (root : Element) : Address → Element → Prop
  | root : Reachable r root [] root
  | pass {a b : Address} {e x : Element} : Reachable r root a e → (b, x) ∈ e.passes r →
    Reachable r root (a ++ b) x

variable {r : Resolver} {root : Element}

theorem Reachable.at?_eq {a : Address} {e : Element} (h : Reachable r root a e) :
    root.at? a = some e := by
  induction h with
  | root => rfl
  | pass _ hx ih => rw [at?_append, ih, Option.bind_some, (mem_passes hx).2]

theorem Reachable.of_pass {a b : Address} {x y : Element} (hx : (a, x) ∈ root.passes r)
    (hy : Reachable r x b y) : Reachable r root (a ++ b) y := by
  induction hy with
  | root => exact (List.append_nil a).symm ▸ List.nil_append a ▸ .pass .root hx
  | pass _ hz ih => exact List.append_assoc .. ▸ .pass ih hz

theorem Reachable.eq_or_below {a : Address} {e : Element} (h : Reachable r root a e) :
    a = [] ∧ e = root ∨ ∃ b x c, (b, x) ∈ root.passes r ∧ Reachable r x c e ∧ a = b ++ c := by
  induction h with
  | root => exact Or.inl ⟨rfl, rfl⟩
  | @pass a b e x _ hx ih =>
    rcases ih with ⟨rfl, rfl⟩ | ⟨c, y, d, hy, he, rfl⟩
    · exact Or.inr ⟨b, x, [], hx, .root, (List.append_nil b).symm⟩
    · exact Or.inr ⟨c, y, d ++ b, hy, .pass he hx, List.append_assoc c d b⟩

theorem mem_walk_iff {a : Address} {e : Element} :
    (a, e) ∈ root.walk r ↔ Reachable r root a e := by
  -- Reachability grows at its end and the walk at its start; `of_pass` and `eq_or_below` turn it round.
  induction root using walk.induct generalizing a with
  | r => exact r
  | case1 root ih =>
    rw [walk_eq, List.mem_cons]
    constructor
    · rintro (h | h)
      · cases h
        exact .root
      · obtain ⟨⟨b, x⟩, hx, hy⟩ := List.mem_flatMap.1 h
        obtain ⟨⟨c, y⟩, hc, hy⟩ := List.mem_map.1 hy
        cases hy
        exact .of_pass hx ((ih ⟨_, hx⟩).1 hc)
    · intro h
      rcases h.eq_or_below with ⟨rfl, rfl⟩ | ⟨b, x, c, hx, he, rfl⟩
      · exact Or.inl rfl
      · refine Or.inr (List.mem_flatMap.2 ⟨(b, x), hx, ?_⟩)
        exact List.mem_map.2 ⟨(c, e), (ih ⟨_, hx⟩).2 he, rfl⟩

/-- The order of the walk: an element stands before what is below it, and what is below one child
before what is below a later one. Only in a `doc` element the first `assembly` goes before the first
`members`, wherever they stand. -/
inductive WalkedBefore (root : Element) : Address → Address → Prop
  | inside (a : Address) {b : Address} : b ≠ [] → WalkedBefore root a (a ++ b)
  | doc {a b c : Address} {e : Element} {x y : Address × Element} : root.at? a = some e →
    e.name = "doc" → e.first? "assembly" = some x → e.first? "members" = some y →
    WalkedBefore root (a ++ (x.1 ++ b)) (a ++ (y.1 ++ c))
  | apart {a b c : Address} {e : Element} {i j : Nat} : root.at? a = some e → e.name ≠ "doc" →
    i < j → WalkedBefore root (a ++ i :: b) (a ++ j :: c)

theorem WalkedBefore.within {p a b : Address} {e : Element} (hp : root.at? p = some e)
    (h : WalkedBefore e a b) : WalkedBefore root (p ++ a) (p ++ b) := by
  have hat : ∀ {a f}, e.at? a = some f → root.at? (p ++ a) = some f := by
    intro a f ha
    rw [at?_append, hp, Option.bind_some, ha]
  cases h with
  | inside _ hb =>
    rw [← List.append_assoc]
    exact .inside _ hb
  | doc ha hdoc hx hy =>
    rw [← List.append_assoc, ← List.append_assoc p]
    exact .doc (hat ha) hdoc hx hy
  | apart ha hdoc hij =>
    rw [← List.append_assoc, ← List.append_assoc p]
    exact .apart (hat ha) hdoc hij

theorem exists_index_of_mem_placed {e : Element} {x : Address × Element} (h : x ∈ e.placed) :
    ∃ i, x.1 = [i] := by
  obtain ⟨⟨n, i⟩, -, hx⟩ := List.mem_filterMap.1 h
  obtain ⟨y, -, rfl⟩ := Option.map_eq_some_iff.1 hx
  exact ⟨i, rfl⟩

theorem WalkedBefore.ne {a b : Address} (h : WalkedBefore root a b) : a ≠ b := by
  cases h with
  | inside _ hb => exact fun h => hb (List.self_eq_append_right.1 h)
  | @doc a b c e x y _ _ hx hy =>
    intro h
    obtain ⟨hx, hassembly⟩ := mem_of_first? hx
    obtain ⟨hy, hmembers⟩ := mem_of_first? hy
    obtain ⟨i, hi⟩ := exists_index_of_mem_placed hx
    obtain ⟨j, hj⟩ := exists_index_of_mem_placed hy
    have hij : x.1 = y.1 := by
      have := List.append_cancel_left h
      rw [hi, hj, List.singleton_append, List.singleton_append, List.cons.injEq] at this
      rw [hi, hj, this.1]
    have hsame : some x.2 = some y.2 := by rw [← (mem_placed hx).2, ← (mem_placed hy).2, hij]
    rw [Option.some.inj hsame, hmembers] at hassembly
    exact absurd hassembly (by decide)
  | apart _ _ hij =>
    intro h
    have := List.append_cancel_left h
    rw [List.cons.injEq] at this
    omega

theorem pairwise_placed (e : Element) :
    e.placed.Pairwise fun x y => ∃ i j, x.1 = [i] ∧ y.1 = [j] ∧ i < j := by
  rw [placed, List.pairwise_filterMap]
  have hindex : (e.children.zipIdx.map Prod.snd).Pairwise (· < ·) := by
    rw [List.zipIdx_map_snd]
    exact List.pairwise_lt_range'
  refine (List.pairwise_map.1 hindex).imp ?_
  rintro ⟨n, i⟩ ⟨m, j⟩ hij x hx y hy
  obtain ⟨x, -, rfl⟩ := Option.map_eq_some_iff.1 hx
  obtain ⟨y, -, rfl⟩ := Option.map_eq_some_iff.1 hy
  exact ⟨i, j, rfl, rfl, hij⟩

theorem pairwise_passes (r : Resolver) (e : Element) :
    (e.passes r).Pairwise fun x y => ∀ b c, WalkedBefore e (x.1 ++ b) (y.1 ++ c) := by
  have happart : ∀ {p : Address} {f : Element}, e.at? p = some f → f.name ≠ "doc" →
      f.placed.Pairwise fun x y => ∀ b c, WalkedBefore e (p ++ x.1 ++ b) (p ++ y.1 ++ c) := by
    intro p f hp hf
    refine f.pairwise_placed.imp ?_
    rintro x y ⟨i, j, hi, hj, hij⟩ b c
    rw [hi, hj, List.append_assoc, List.append_assoc]
    exact .apart hp hf hij
  rw [passes]
  split
  · next hdoc =>
    have hfirst : ∀ {o : Option (Address × Element)} {R : Address × Element → Address × Element → Prop},
        o.toList.Pairwise R := by
      intro o R
      cases o with
      | none => exact .nil
      | some x => exact List.pairwise_singleton R x
    refine List.pairwise_append.2 ⟨hfirst, ?_, ?_⟩
    · refine List.pairwise_flatMap.2 ⟨?_, hfirst⟩
      rintro ⟨a, members⟩ hmembers
      obtain ⟨hmem, hname⟩ := mem_of_first? (Option.mem_toList.1 hmembers)
      have hmembers : members.name ≠ "doc" := by
        rw [show members.name = "members" from hname]
        decide
      exact List.pairwise_map.2 ((happart (mem_placed hmem).2 hmembers).filter _)
    · intro x hx y hy b c
      obtain ⟨⟨a, members⟩, hmembers, hy⟩ := List.mem_flatMap.1 hy
      obtain ⟨⟨d, m⟩, -, rfl⟩ := List.mem_map.1 hy
      rw [List.append_assoc]
      have hroot : e.at? [] = some e := rfl
      exact .doc hroot hdoc (Option.mem_toList.1 hx) (Option.mem_toList.1 hmembers)
  · next hdoc =>
    split
    · exact .nil
    · exact happart (p := []) rfl hdoc

theorem pairwise_walk (r : Resolver) (e : Element) :
    (e.walk r).Pairwise fun x y => WalkedBefore e x.1 y.1 := by
  induction e using walk.induct with
  | r => exact r
  | case1 e ih =>
    rw [walk_eq]
    refine List.Pairwise.cons ?_ (List.pairwise_flatMap.2 ⟨?_, ?_⟩)
    · intro y hy
      obtain ⟨x, hx, hy⟩ := List.mem_flatMap.1 hy
      obtain ⟨z, -, rfl⟩ := List.mem_map.1 hy
      exact .inside [] fun h => ne_nil_of_mem_passes hx (List.append_eq_nil_iff.1 h).1
    · intro x hx
      refine List.pairwise_map.2 ((ih ⟨x, hx⟩).imp ?_)
      intro y z hyz
      exact hyz.within (mem_passes hx).2
    · refine (pairwise_passes r e).imp ?_
      intro x y hxy z hz w hw
      obtain ⟨z, -, rfl⟩ := List.mem_map.1 hz
      obtain ⟨w, -, rfl⟩ := List.mem_map.1 hw
      exact hxy z.1 w.1

end Element
end Docmark
