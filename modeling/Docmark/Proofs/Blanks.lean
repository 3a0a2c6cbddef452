import Docmark.Text.Blank

namespace Docmark.Text

theorem allBlank_append (s t : Text) : allBlank (s ++ t) = (allBlank s && allBlank t) :=
  List.all_append

/-- The texts differ only in how long their runs of blank characters are and in what these are made
of. -/
inductive Rewraps : Text → Text → Prop
  | nil : Rewraps [] []
  | char {c : Char} {s t : Text} : isBlank c = false → Rewraps s t → Rewraps (c :: s) (c :: t)
  | run {a b s t : Text} : a ≠ [] → b ≠ [] → allBlank a = true → allBlank b = true →
    Rewraps s t → Rewraps (a ++ s) (b ++ t)

namespace Rewraps

theorem refl (t : Text) : Rewraps t t := by
  induction t with
  | nil => exact .nil
  | cons c t ih =>
    cases hc : isBlank c with
    | true =>
      have hrun : allBlank [c] = true := by simp [allBlank, hc]
      exact run (List.cons_ne_nil _ _) (List.cons_ne_nil _ _) hrun hrun ih
    | false => exact char hc ih

theorem blanks {a b : Text} (ha : a ≠ []) (hb : b ≠ []) (hsa : allBlank a = true)
    (hsb : allBlank b = true) : Rewraps a b := by
  have h := run ha hb hsa hsb .nil
  rwa [List.append_nil, List.append_nil] at h

theorem append {s t s' t' : Text} (h : Rewraps s t) (h' : Rewraps s' t') :
    Rewraps (s ++ s') (t ++ t') := by
  induction h with
  | nil => exact h'
  | char hc _ ih => exact char hc ih
  | run ha hb hsa hsb _ ih =>
    rw [List.append_assoc, List.append_assoc]
    exact run ha hb hsa hsb ih

theorem isEmpty_eq {s t : Text} (h : Rewraps s t) : s.isEmpty = t.isEmpty := by
  cases h with
  | nil => rfl
  | char => rfl
  | run ha hb =>
    obtain ⟨x, xs, rfl⟩ := List.exists_cons_of_ne_nil ha
    obtain ⟨y, ys, rfl⟩ := List.exists_cons_of_ne_nil hb
    rfl

theorem blank_cons {c d : Char} {s t : Text} (hc : isBlank c = true) (hd : isBlank d = true)
    (h : Rewraps (d :: s) t) : Rewraps (c :: d :: s) t := by
  generalize hds : d :: s = u at h
  cases h with
  | nil => cases hds
  | char hx =>
    cases hds
    rw [hd] at hx
    cases hx
  | @run a b s' t' ha hb hsa hsb h =>
    rw [← List.cons_append]
    refine run (List.cons_ne_nil _ _) hb ?_ hsb h
    rw [allBlank, List.all_cons, hc]
    exact hsa

end Rewraps

theorem head?_collapse_of_blank {c : Char} (h : isBlank c = true) (t : Text) :
    (collapse (c :: t)).head? = some ' ' := by
  induction t generalizing c with
  | nil => simp [collapse, h]
  | cons d t ih =>
    by_cases hd : isBlank d = true
    · rw [collapse_blank_blank h hd, ih hd]
    · simp [collapse, h, hd]

theorem collapse_space_cons (t : Text) :
    collapse (' ' :: t) = if (collapse t).head? = some ' ' then collapse t else ' ' :: collapse t := by
  have hspace : isBlank ' ' = true := rfl
  cases t with
  | nil => rfl
  | cons c t =>
    cases hc : isBlank c with
    | true => rw [collapse_blank_blank hspace hc, if_pos (head?_collapse_of_blank hc t)]
    | false =>
      have hne : some c ≠ some ' ' := by
        rintro ⟨⟩
        cases hc
      rw [collapse_cons_of_not_blank hc, List.head?_cons, if_neg hne,
        ← collapse_cons_of_not_blank hc]
      simp [collapse, hspace, hc]

theorem collapse_run_append {a : Text} (ha : a ≠ []) (h : allBlank a = true) (t : Text) :
    collapse (a ++ t) = collapse (' ' :: t) := by
  have hspace : isBlank ' ' = true := rfl
  induction a with
  | nil => exact absurd rfl ha
  | cons c a ih =>
    rw [allBlank, List.all_cons, Bool.and_eq_true] at h
    cases a with
    | nil =>
      cases t with
      | nil => simp [collapse, h.1, hspace]
      | cons d t => simp [collapse, h.1, hspace]
    | cons d a =>
      have hd : isBlank d = true := List.all_eq_true.1 h.2 d List.mem_cons_self
      rw [List.cons_append, List.cons_append, collapse_blank_blank h.1 hd, ← List.cons_append,
        ih (List.cons_ne_nil _ _) h.2]

theorem Rewraps.collapse_eq {s t : Text} (h : Rewraps s t) : collapse s = collapse t := by
  induction h with
  | nil => rfl
  | char hc _ ih => rw [collapse_cons_of_not_blank hc, collapse_cons_of_not_blank hc, ih]
  | run ha hb hsa hsb _ ih =>
    rw [collapse_run_append ha hsa, collapse_run_append hb hsb, collapse_space_cons,
      collapse_space_cons, ih]

theorem rewraps_collapse (t : Text) : Rewraps t (collapse t) := by
  have hspace : allBlank [' '] = true := rfl
  induction t with
  | nil => exact .nil
  | cons c t ih =>
    cases hc : isBlank c with
    | false =>
      rw [collapse_cons_of_not_blank hc]
      exact .char hc ih
    | true =>
      have hrun : allBlank [c] = true := by simp [allBlank, hc]
      have hstep {s u : Text} (h : Rewraps s u) : Rewraps (c :: s) (' ' :: u) :=
        .run (List.cons_ne_nil _ _) (List.cons_ne_nil _ _) hrun hspace h
      cases t with
      | nil =>
        rw [show collapse [c] = [' '] by simp [collapse, hc]]
        exact hstep .nil
      | cons d t =>
        cases hd : isBlank d with
        | true =>
          rw [collapse_blank_blank hc hd]
          exact ih.blank_cons hc hd
        | false =>
          rw [show collapse (c :: d :: t) = ' ' :: collapse (d :: t) by simp [collapse, hc, hd]]
          exact hstep ih

end Docmark.Text
