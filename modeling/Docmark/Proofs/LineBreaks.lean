import Mathlib.Data.List.SplitBy
import Docmark.Text.LineBreaks

namespace Docmark.Text

def spareBreaks : Text := ['\n', '\n', '\n']

theorem squeezeBreaks_cons_of_not_spare {c : Char} {t : Text} (h : ¬ spareBreaks <+: c :: t) :
    squeezeBreaks (c :: t) = c :: squeezeBreaks t := by
  apply squeezeBreaks_cons_of_not_three
  rintro rest rfl rfl
  exact h ⟨rest, rfl⟩

theorem squeezeBreaks_append {c : Char} (hc : c ≠ '\n') (s t : Text) :
    squeezeBreaks (s ++ c :: t) = squeezeBreaks s ++ c :: squeezeBreaks t := by
  induction s using squeezeBreaks.induct with
  | case1 rest ih => exact (squeezeBreaks_three _).trans (ih.trans (by rw [squeezeBreaks_three]))
  | case2 d rest hd ih =>
    have hspare : ¬ spareBreaks <+: d :: (rest ++ c :: t) := by
      -- A run that begins in front of the other character ends in front of it as well.
      rintro ⟨more, hmore⟩
      rw [spareBreaks, List.cons_append, List.cons.injEq] at hmore
      obtain ⟨rfl, hrest⟩ := hmore
      match rest, hd, hrest with
      | [], _, hrest => exact hc (List.cons.inj hrest).1.symm
      | [_], _, hrest => exact hc (List.cons.inj (List.cons.inj hrest).2).1.symm
      | _ :: _ :: rest, hd, hrest =>
        obtain ⟨rfl, htail⟩ := List.cons.inj hrest
        obtain ⟨rfl, -⟩ := List.cons.inj htail
        exact hd rest rfl rfl
    rw [List.cons_append, squeezeBreaks_cons_of_not_spare hspare, ih,
      squeezeBreaks_cons_of_not_three hd, List.cons_append]
  | case3 => exact squeezeBreaks_cons hc t

theorem squeezeBreaks_eq_self {t : Text} (h : ¬ spareBreaks <:+: t) : squeezeBreaks t = t := by
  induction t with
  | nil => rfl
  | cons c t ih =>
    rw [List.infix_cons_iff, not_or] at h
    rw [squeezeBreaks_cons_of_not_spare h.1, ih h.2]

theorem squeezeBreaks_around {r : Text} (hne : r ≠ []) (hf : r.head? ≠ some '\n')
    (hl : r.getLast? ≠ some '\n') (s t : Text) :
    squeezeBreaks (s ++ r ++ t) = squeezeBreaks s ++ squeezeBreaks r ++ squeezeBreaks t := by
  obtain ⟨c, m, rfl⟩ := List.exists_cons_of_ne_nil hne
  have hc : c ≠ '\n' := fun h => hf (congrArg some h)
  rw [List.append_assoc, List.cons_append, squeezeBreaks_append hc, squeezeBreaks_cons hc]
  rcases List.eq_nil_or_concat m with rfl | ⟨front, d, rfl⟩
  · simp [squeezeBreaks_nil]
  · rw [List.concat_eq_append] at hl ⊢
    have hd : d ≠ '\n' := by
      rintro rfl
      exact hl (by rw [← List.cons_append, List.getLast?_concat])
    rw [List.append_assoc, List.singleton_append, squeezeBreaks_append hd, squeezeBreaks_append hd]
    simp [squeezeBreaks_nil]

theorem take_two_squeezeBreaks (t : Text) : (squeezeBreaks t).take 2 = t.take 2 := by
  induction t using squeezeBreaks.induct with
  | case1 rest ih => rw [squeezeBreaks_three, ih]; rfl
  | case2 c rest hc ih =>
    have hone : (squeezeBreaks rest).take 1 = rest.take 1 := by
      simpa [List.take_take] using congrArg (List.take 1) ih
    rw [squeezeBreaks_cons_of_not_three hc, List.take_succ_cons, List.take_succ_cons, hone]
  | case3 => rfl

def squeezeOnto (c : Char) (t : Text) : Text :=
  if spareBreaks <+: c :: t then t else c :: t

theorem spareBreaks_prefix_cons_iff {c : Char} {t : Text} :
    spareBreaks <+: c :: t ↔ c = '\n' ∧ t.take 2 = ['\n', '\n'] := by
  rw [List.prefix_iff_eq_take, spareBreaks, List.length_cons, List.length_cons, List.length_singleton,
    List.take_succ_cons, List.cons.injEq, eq_comm (a := '\n'), eq_comm (b := List.take _ t)]

theorem squeezeBreaks_eq_squeezeOnto (c : Char) (t : Text) :
    squeezeBreaks (c :: t) = squeezeOnto c (squeezeBreaks t) := by
  rw [squeezeOnto]
  simp only [spareBreaks_prefix_cons_iff, take_two_squeezeBreaks]
  simp only [← spareBreaks_prefix_cons_iff]
  split
  · next h =>
    obtain ⟨rest, hrest⟩ := h
    obtain ⟨rfl, rfl⟩ := List.cons.inj hrest
    exact squeezeBreaks_three rest
  · next h => exact squeezeBreaks_cons_of_not_spare h

theorem squeezeBreaks_eq_foldr (s t : Text) :
    squeezeBreaks (s ++ t) = s.foldr squeezeOnto (squeezeBreaks t) := by
  induction s with
  | nil => rfl
  | cons c s ih => rw [List.cons_append, squeezeBreaks_eq_squeezeOnto, ih, List.foldr_cons]

theorem head?_squeezeOnto (t : Text) : (squeezeOnto '\n' t).take 1 = ['\n'] := by
  rw [squeezeOnto]
  split
  · next h => simpa [List.take_take] using congrArg (List.take 1) (spareBreaks_prefix_cons_iff.1 h).2
  · rfl

theorem squeezeOnto_spare (t : Text) :
    squeezeOnto '\n' (squeezeOnto '\n' (squeezeOnto '\n' t)) =
      squeezeOnto '\n' (squeezeOnto '\n' t) := by
  have htwo : (squeezeOnto '\n' (squeezeOnto '\n' t)).take 2 = ['\n', '\n'] := by
    rw [squeezeOnto]
    split
    · next h => exact (spareBreaks_prefix_cons_iff.1 h).2
    · rw [List.take_succ_cons, head?_squeezeOnto]
  rw [squeezeOnto, if_pos (spareBreaks_prefix_cons_iff.2 ⟨rfl, htwo⟩)]

theorem not_spare_squeezeBreaks (t : Text) : ¬ spareBreaks <:+: squeezeBreaks t := by
  induction t with
  | nil => decide
  | cons c t ih =>
    rw [squeezeBreaks_eq_squeezeOnto, squeezeOnto]
    split
    · exact ih
    · next h =>
      rw [List.infix_cons_iff, not_or]
      exact ⟨h, ih⟩

theorem squeezeBreaks_squeezeBreaks (t : Text) : squeezeBreaks (squeezeBreaks t) = squeezeBreaks t :=
  squeezeBreaks_eq_self (not_spare_squeezeBreaks t)

theorem foldr_squeezeOnto (c : Char) (s t : Text) :
    (squeezeOnto c s).foldr squeezeOnto t = squeezeOnto c (s.foldr squeezeOnto t) := by
  by_cases h : spareBreaks <+: c :: s
  · obtain ⟨rest, hrest⟩ := h
    obtain ⟨rfl, rfl⟩ := List.cons.inj hrest
    rw [squeezeOnto, if_pos ⟨rest, rfl⟩]
    exact (squeezeOnto_spare _).symm
  · rw [squeezeOnto, if_neg h, List.foldr_cons]

theorem squeezeBreaks_append_squeezeBreaks (s t : Text) :
    squeezeBreaks (squeezeBreaks s ++ squeezeBreaks t) = squeezeBreaks (s ++ t) := by
  rw [squeezeBreaks_eq_foldr, squeezeBreaks_eq_foldr, squeezeBreaks_squeezeBreaks]
  induction s with
  | nil => rfl
  | cons c s ih => rw [squeezeBreaks_eq_squeezeOnto, foldr_squeezeOnto, ih, List.foldr_cons]

theorem squeezeBreaks_within (s t u : Text) :
    squeezeBreaks (s ++ squeezeBreaks t ++ u) = squeezeBreaks (s ++ t ++ u) := by
  rw [← squeezeBreaks_append_squeezeBreaks, ← squeezeBreaks_append_squeezeBreaks s,
    squeezeBreaks_squeezeBreaks, squeezeBreaks_append_squeezeBreaks s,
    squeezeBreaks_append_squeezeBreaks]

def shortenedRun (run : Text) : Text :=
  if run.head? = some '\n' then List.replicate (min run.length 2) '\n' else run

theorem squeezeBreaks_replicate (n : Nat) :
    squeezeBreaks (List.replicate n '\n') = List.replicate (min n 2) '\n' := by
  induction n with
  | zero => rfl
  | succ n ih =>
    rw [List.replicate_succ, squeezeBreaks_eq_squeezeOnto, ih]
    obtain _ | _ | n := n
    · rfl
    · rfl
    · rw [Nat.min_eq_right (by omega), Nat.min_eq_right (by omega)]
      rfl

theorem squeezeBreaks_append_left {s : Text} (h : '\n' ∉ s) (t : Text) :
    squeezeBreaks (s ++ t) = s ++ squeezeBreaks t := by
  induction s with
  | nil => rfl
  | cons c s ih =>
    rw [List.mem_cons, not_or] at h
    rw [List.cons_append, squeezeBreaks_cons (Ne.symm h.1), ih h.2, List.cons_append]

theorem squeezeBreaks_append_right {t : Text} (h : t.head? ≠ some '\n') (s : Text) :
    squeezeBreaks (s ++ t) = squeezeBreaks s ++ squeezeBreaks t := by
  cases t with
  | nil => rw [squeezeBreaks_nil, List.append_nil, List.append_nil]
  | cons c t =>
    have hc : c ≠ '\n' := fun hc => h (congrArg some hc)
    rw [squeezeBreaks_append hc, squeezeBreaks_cons hc]

theorem eq_replicate_of_isChain {α : Type} [BEq α] [LawfulBEq α] {a : α} {l : List α}
    (h : (a :: l).IsChain fun x y => (x == y) = true) : a :: l = List.replicate (l.length + 1) a := by
  simp only [beq_iff_eq] at h
  rw [List.replicate_succ, ← List.isChain_cons_eq_iff_eq_replicate.1 h]

theorem squeezeBreaks_flatten {runs : List Text} (hne : [] ∉ runs)
    (hsame : ∀ run ∈ runs, run.IsChain fun c d => (c == d) = true)
    (hapart : runs.IsChain fun r s => ∃ hr hs, (r.getLast hr == s.head hs) = false) :
    squeezeBreaks runs.flatten = runs.flatMap shortenedRun := by
  induction runs with
  | nil => rfl
  | cons run runs ih =>
    rw [List.mem_cons, not_or] at hne
    obtain ⟨c, more, rfl⟩ := List.exists_cons_of_ne_nil (Ne.symm hne.1)
    have hrest := ih hne.2 (fun run hr => hsame run (List.mem_cons_of_mem _ hr))
      (List.isChain_cons.1 hapart).2
    have hrun := eq_replicate_of_isChain (hsame _ List.mem_cons_self)
    rw [List.flatten_cons, List.flatMap_cons, ← hrest, shortenedRun, List.head?_cons, List.length_cons]
    by_cases hc : c = '\n'
    · subst hc
      have hnext : runs.flatten.head? ≠ some '\n' := by
        intro hhead
        cases runs with
        | nil => cases hhead
        | cons next runs =>
          obtain ⟨_, hn, hlast⟩ := (List.isChain_cons.1 hapart).1 next rfl
          obtain ⟨d, tail, rfl⟩ := List.exists_cons_of_ne_nil hn
          cases hhead
          simp [hrun] at hlast
      rw [if_pos rfl, squeezeBreaks_append_right hnext, hrun, squeezeBreaks_replicate]
    · have hplain : '\n' ∉ c :: more := by
        rw [hrun, List.mem_replicate, not_and]
        exact fun _ => Ne.symm hc
      rw [if_neg fun h => hc (Option.some.inj h), squeezeBreaks_append_left hplain]

theorem squeezeBreaks_eq_flatMap (t : Text) :
    squeezeBreaks t = (t.splitBy (· == ·)).flatMap shortenedRun := by
  have hruns := squeezeBreaks_flatten (List.nil_notMem_splitBy _ t)
    (fun _ => List.isChain_of_mem_splitBy) (List.isChain_getLast_head_splitBy _ t)
  rwa [List.flatten_splitBy] at hruns

theorem mem_squeezeBreaks {c : Char} {t : Text} : c ∈ squeezeBreaks t ↔ c ∈ t := by
  induction t with
  | nil => rfl
  | cons d t ih =>
    rw [squeezeBreaks_eq_squeezeOnto, squeezeOnto]
    split
    · next h =>
      obtain ⟨rest, hrest⟩ := h
      obtain ⟨rfl, htwo⟩ := List.cons.inj hrest
      rw [List.mem_cons, ← ih, ← htwo]
      simp
    · rw [List.mem_cons, List.mem_cons, ih]

end Docmark.Text
