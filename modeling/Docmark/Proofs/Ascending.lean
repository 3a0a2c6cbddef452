import Mathlib.Data.Char
import Mathlib.Data.List.Lex
import Docmark.Proofs.Paths

namespace Docmark.Path

namespace Component

variable {a b c : Component}

theorem before_iff : a.before b ↔ a.rank < b.rank ∨ a.rank = b.rank ∧ a.text < b.text := by
  simp [before]

theorem eq_of_rank_eq (hrank : a.rank = b.rank) (htext : a.text = b.text) : a = b := by
  cases a <;> cases b <;> simp_all [rank, text]

theorem before_irrefl (a : Component) : ¬ a.before a := by
  simp [before_iff]

theorem before_trans (h : a.before b) (h' : b.before c) : a.before c := by
  rw [before_iff] at h h' ⊢
  obtain h | ⟨h, ht⟩ := h
  · obtain h' | ⟨h', -⟩ := h'
    · exact .inl (h.trans h')
    · exact .inl (h' ▸ h)
  · obtain h' | ⟨h', ht'⟩ := h'
    · exact .inl (h ▸ h')
    · exact .inr ⟨h.trans h', lt_trans ht ht'⟩

theorem before_trichotomy (a b : Component) : a.before b ∨ a = b ∨ b.before a := by
  simp only [before_iff]
  obtain h | h | h := Nat.lt_trichotomy a.rank b.rank
  · exact .inl (.inl h)
  · obtain ht | ht | ht := lt_trichotomy a.text b.text
    · exact .inl (.inr ⟨h, ht⟩)
    · exact .inr (.inl (eq_of_rank_eq h ht))
    · exact .inr (.inr (.inr ⟨h.symm, ht⟩))
  · exact .inr (.inr (.inl h))

end Component

variable {as bs cs : List Component} {p q r : Path}

theorem componentsBefore_cons_iff {a b : Component} :
    componentsBefore (a :: as) (b :: bs) ↔ a.before b ∨ a = b ∧ componentsBefore as bs := by
  simp [componentsBefore]

theorem componentsBefore_irrefl (as : List Component) : ¬ componentsBefore as as := by
  induction as with
  | nil => simp [componentsBefore]
  | cons a as ih =>
    rw [componentsBefore_cons_iff]
    rintro (h | ⟨-, h⟩)
    · exact a.before_irrefl h
    · exact ih h

theorem componentsBefore_trans (h : componentsBefore as bs) (h' : componentsBefore bs cs) :
    componentsBefore as cs := by
  induction as generalizing bs cs with
  | nil =>
    cases cs with
    | nil => cases bs <;> cases h'
    | cons c cs => rfl
  | cons a as ih =>
    cases bs with
    | nil => cases h
    | cons b bs =>
      cases cs with
      | nil => cases h'
      | cons c cs =>
        rw [componentsBefore_cons_iff] at h h' ⊢
        obtain h | ⟨rfl, h⟩ := h
        · obtain h' | ⟨rfl, -⟩ := h'
          · exact .inl (Component.before_trans h h')
          · exact .inl h
        · exact h'.imp_right (And.imp_right (ih h))

theorem componentsBefore_trichotomy (as bs : List Component) :
    componentsBefore as bs ∨ as = bs ∨ componentsBefore bs as := by
  induction as generalizing bs with
  | nil =>
    cases bs with
    | nil => exact .inr (.inl rfl)
    | cons b bs => exact .inl rfl
  | cons a as ih =>
    cases bs with
    | nil => exact .inr (.inr rfl)
    | cons b bs =>
      simp only [componentsBefore_cons_iff]
      obtain h | rfl | h := a.before_trichotomy b
      · exact .inl (.inl h)
      · obtain h | rfl | h := ih bs
        · exact .inl (.inr ⟨rfl, h⟩)
        · exact .inr (.inl rfl)
        · exact .inr (.inr (.inr ⟨rfl, h⟩))
      · exact .inr (.inr (.inl h))

theorem isBefore_irrefl (p : Path) : ¬ isBefore p p :=
  componentsBefore_irrefl _

theorem isBefore_trans (h : isBefore p q) (h' : isBefore q r) : isBefore p r :=
  componentsBefore_trans h h'

theorem components_eq_of_not_isBefore (h : ¬ isBefore p q) (h' : ¬ isBefore q p) :
    components p = components q :=
  ((componentsBefore_trichotomy _ _).resolve_left h).resolve_right h'

def Ascending (ps : List Path) : Prop :=
  ps.Pairwise fun p q => isBefore p q = true

theorem Ascending.nodup {ps : List Path} (h : Ascending ps) : ps.Nodup := by
  refine List.Pairwise.imp ?_ h
  rintro p q hbefore rfl
  exact isBefore_irrefl p hbefore

theorem mem_insert {ps : List Path} (h : q ∈ insert p ps) : q = p ∨ q ∈ ps := by
  induction ps with
  | nil => exact .inl (List.mem_singleton.1 h)
  | cons first ps ih =>
    rw [insert] at h
    split at h
    · exact List.mem_cons.1 h
    · split at h
      · obtain rfl | h := List.mem_cons.1 h
        · exact .inr List.mem_cons_self
        · exact (ih h).imp_right (List.mem_cons_of_mem first)
      · exact .inr h

theorem Ascending.insert {ps : List Path} (h : Ascending ps) (p : Path) : Ascending (insert p ps) := by
  induction ps with
  | nil => exact List.pairwise_singleton _ p
  | cons first ps ih =>
    obtain ⟨hfirst, hps⟩ := List.pairwise_cons.1 h
    rw [Path.insert]
    split
    · next hp =>
      refine List.pairwise_cons.2 ⟨?_, h⟩
      intro q hq
      obtain rfl | hq := List.mem_cons.1 hq
      · exact hp
      · exact isBefore_trans hp (hfirst q hq)
    · split
      · next hp =>
        refine List.pairwise_cons.2 ⟨?_, ih hps⟩
        intro q hq
        obtain rfl | hq := mem_insert hq
        · exact hp
        · exact hfirst q hq
      · exact h

theorem ascending_ascending (ps : List Path) : Ascending (ascending ps) := by
  have hfold (ps sorted : List Path) (h : Ascending sorted) :
      Ascending (ps.foldl (fun sorted p => insert p sorted) sorted) := by
    induction ps generalizing sorted with
    | nil => exact h
    | cons p ps ih => exact ih _ (h.insert p)
  exact hfold ps [] List.Pairwise.nil

theorem mem_insert_of_mem {ps : List Path} (h : q ∈ ps) (p : Path) : q ∈ insert p ps := by
  induction ps with
  | nil => cases h
  | cons first ps ih =>
    rw [insert]
    split
    · exact List.mem_cons_of_mem p h
    · split
      · obtain rfl | h := List.mem_cons.1 h
        · exact List.mem_cons_self
        · exact List.mem_cons_of_mem first (ih h)
      · exact h

theorem mem_insert_self {ps : List Path} (h : ∀ q ∈ ps, components p = components q → p = q) :
    p ∈ insert p ps := by
  induction ps with
  | nil => exact List.mem_singleton_self p
  | cons first ps ih =>
    rw [insert]
    split
    · exact List.mem_cons_self
    · next hp =>
      split
      · exact List.mem_cons_of_mem first (ih fun q hq => h q (List.mem_cons_of_mem first hq))
      · next hfirst =>
        rw [h first List.mem_cons_self (components_eq_of_not_isBefore hp hfirst)]
        exact List.mem_cons_self

theorem mem_of_mem_ascending {ps : List Path} (h : q ∈ ascending ps) : q ∈ ps := by
  have hfold (ps sorted : List Path) (hq : q ∈ ps.foldl (fun sorted p => insert p sorted) sorted) :
      q ∈ sorted ∨ q ∈ ps := by
    induction ps generalizing sorted with
    | nil => exact .inl hq
    | cons p ps ih =>
      obtain hq | hq := ih (insert p sorted) hq
      · obtain rfl | hq := mem_insert hq
        · exact .inr List.mem_cons_self
        · exact .inl hq
      · exact .inr (List.mem_cons_of_mem p hq)
  exact (hfold ps [] h).resolve_left List.not_mem_nil

theorem mem_ascending_iff {ps : List Path}
    (h : ∀ p ∈ ps, ∀ q ∈ ps, components p = components q → p = q) : q ∈ ascending ps ↔ q ∈ ps := by
  -- A path is dropped only for one with the same components, which is the same path here.
  have hfold (ps sorted : List Path)
      (h : ∀ p ∈ sorted ++ ps, ∀ q ∈ sorted ++ ps, components p = components q → p = q)
      (hq : q ∈ sorted ++ ps) : q ∈ ps.foldl (fun sorted p => insert p sorted) sorted := by
    induction ps generalizing sorted with
    | nil => rwa [List.append_nil] at hq
    | cons p ps ih =>
      have hold {r : Path} (hr : r ∈ insert p sorted ++ ps) : r ∈ sorted ++ p :: ps := by
        obtain hr | hr := List.mem_append.1 hr
        · obtain rfl | hr := mem_insert hr <;> simp [*]
        · simp [hr]
      apply ih (insert p sorted) fun r hr t ht => h r (hold hr) t (hold ht)
      obtain hq | hq := List.mem_append.1 hq
      · exact List.mem_append_left ps (mem_insert_of_mem hq p)
      · obtain rfl | hq := List.mem_cons.1 hq
        · exact List.mem_append_left ps (mem_insert_self fun r hr => h q (by simp) r (by simp [hr]))
        · exact List.mem_append_right _ hq
  exact ⟨mem_of_mem_ascending, hfold ps [] h⟩

theorem componentsOf_append (ns ms : List Text) :
    componentsOf (ns ++ ms) = componentsOf ns ++ componentsOf ms := by
  induction ns with
  | nil => rfl
  | cons n ns ih =>
    rw [List.cons_append, componentsOf, componentsOf, ih]
    split <;> rfl

theorem componentsOf_name {name : Text} (h : IsName name) : componentsOf [name] = [.name name] := by
  have hplain : (name.isEmpty || decide (name = ".")) = false := by
    rw [decide_eq_false h.ne_here, List.isEmpty_eq_false_iff.2 h.ne_nil]
    rfl
  rw [componentsOf, hplain, if_neg Bool.false_ne_true, if_neg h.ne_up]
  rfl

theorem components_join {name : Text} (hp : p ≠ []) (h : IsName name) :
    components (join p name) = components p ++ [.name name] := by
  obtain ⟨names, blanks, hsplit, hblank, hne, hjoin⟩ := splitOn_join hp h
  have hnone : componentsOf blanks = [] := by
    obtain rfl | rfl := hblank <;> rfl
  have hhead (more : List Text) : (names ++ more).head? = names.head? := List.head?_append_of_ne_nil _ hne
  simp only [components, isAbsolute_join hp h, hsplit, hjoin, hhead, componentsOf_append, hnone,
    componentsOf_name h, List.append_nil, List.append_assoc]

theorem components_foldl_join {names : List Text} (hp : p ≠ []) (h : ∀ n ∈ names, IsName n) :
    components (names.foldl join p) = components p ++ names.map .name := by
  induction names generalizing p with
  | nil => rw [List.foldl_nil, List.map_nil, List.append_nil]
  | cons name names ih =>
    rw [List.foldl_cons, ih (join_ne_nil hp name) fun n hn => h n (List.mem_cons_of_mem name hn),
      components_join hp (h name List.mem_cons_self), List.append_assoc, List.map_cons, List.singleton_append]

end Docmark.Path
