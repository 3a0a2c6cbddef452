import Docmark.Text.Blank

namespace Docmark.Text

theorem forall_mem_of_all {p : Char → Prop} [DecidablePred p] {t : Text}
    (h : t.all (fun c => decide (p c)) = true) : ∀ c ∈ t, p c :=
  fun c hc => of_decide_eq_true (List.all_eq_true.1 h c hc)

theorem cutFirst?_append {c : Char} {before : Text} (h : c ∉ before) (behind : Text) :
    cutFirst? c (before ++ c :: behind) = some (before, behind) := by
  induction before with
  | nil => simp [cutFirst?]
  | cons x xs ih =>
    rw [List.mem_cons, not_or] at h
    simp [cutFirst?, Ne.symm h.1, ih h.2]

theorem cutLast?_append {c : Char} {after : Text} (h : c ∉ after) (before : Text) :
    cutLast? c (before ++ c :: after) = some (before, after) := by
  induction before with
  | nil => rw [List.nil_append, cutLast?, cutLast?_eq_none.2 h, if_pos rfl]
  | cons x before ih => rw [List.cons_append, cutLast?, ih]

theorem prefix_of_append {init b rest : Text} {last : Char} (hl : last ∉ init) (hb : b ≠ [])
    (h : init ++ [last] <+: b ++ (init ++ ([last] ++ rest))) : init ++ [last] <+: b := by
  rcases List.prefix_or_prefix_of_prefix h (List.prefix_append b _) with hp | ⟨s, hs⟩
  · exact hp
  rcases List.eq_nil_or_concat s with rfl | ⟨front, c, rfl⟩
  · rw [List.append_nil] at hs
    exact hs ▸ List.prefix_rfl
  rw [List.concat_eq_append, ← List.append_assoc, List.append_singleton_inj] at hs
  obtain ⟨rfl, rfl⟩ := hs
  rw [List.append_assoc, List.prefix_append_right_inj] at h
  have hle : (front ++ [c]).length ≤ (b ++ front).length := by
    have := List.length_pos_iff.2 hb
    simp only [List.length_append, List.length_singleton]
    omega
  have hfront := List.prefix_of_prefix_length_le h (List.prefix_append (b ++ front) _) hle
  exact absurd (hfront.subset (List.mem_append_right _ List.mem_cons_self)) hl

theorem cutAt?_append {init content : Text} {last : Char} (hl : last ∉ init)
    (h : ¬ init ++ [last] <:+: content) (rest : Text) :
    cutAt? (init ++ [last]) (content ++ (init ++ ([last] ++ rest))) = some (content, rest) := by
  -- The last character of the part stands nowhere else in it, so no occurrence runs into the next.
  induction content with
  | nil =>
    have hne : init ++ [last] ≠ [] := by simp
    obtain ⟨p, ps, hp⟩ := List.exists_cons_of_ne_nil hne
    have hd : dropOpening? (p :: ps) (p :: (ps ++ rest)) = some rest := dropOpening?_eq_some.2 rfl
    rw [List.nil_append, ← List.append_assoc, hp, List.cons_append, cutAt?, hd]
  | cons c cs ih =>
    rw [List.infix_cons_iff, not_or] at h
    rw [List.cons_append, cutAt?, ih h.2]
    split
    · next after hd =>
      have hp := dropOpening?_eq_some.1 hd
      exact absurd (prefix_of_append hl (List.cons_ne_nil c cs) ⟨after, hp.symm⟩) h.1
    · rfl

theorem takeWhile_append {p : Char → Bool} {before behind : Text} (h : ∀ c ∈ before, p c = true)
    (hs : ∀ c ∈ behind.head?, p c = false) : (before ++ behind).takeWhile p = before := by
  rw [List.takeWhile_append_of_pos h]
  cases behind with
  | nil => rw [List.takeWhile_nil, List.append_nil]
  | cons c cs => rw [List.takeWhile_cons_of_neg (by rw [hs c rfl]; decide), List.append_nil]

theorem dropWhile_append {p : Char → Bool} {before behind : Text} (h : ∀ c ∈ before, p c = true)
    (hs : ∀ c ∈ behind.head?, p c = false) : (before ++ behind).dropWhile p = behind := by
  rw [List.dropWhile_append_of_pos h]
  cases behind with
  | nil => rfl
  | cons c cs => rw [List.dropWhile_cons_of_neg (by rw [hs c rfl]; decide)]

theorem append_inj_of_run {p : Char → Bool} {run other behind rest : Text}
    (hr : ∀ c ∈ run, p c = true) (hb : ∀ c ∈ behind.head?, p c = false)
    (ho : ∀ c ∈ other, p c = true) (hs : ∀ c ∈ rest.head?, p c = false)
    (h : run ++ behind = other ++ rest) : run = other ∧ behind = rest := by
  have hrun : run = other := by
    rw [← takeWhile_append hr hb, h, takeWhile_append ho hs]
  subst hrun
  exact ⟨rfl, List.append_cancel_left h⟩

theorem beforeFirst_append {c : Char} {before behind : Text} (h : c ∉ before)
    (hs : ∀ d ∈ behind.head?, d = c) : beforeFirst c (before ++ behind) = before :=
  takeWhile_append (fun _ hd => bne_iff_ne.2 fun hdc => h (hdc ▸ hd))
    fun d hd => bne_eq_false_iff_eq.2 (hs d hd)

theorem beforeFirst_of_not_mem {c : Char} {t : Text} (h : c ∉ t) : beforeFirst c t = t := by
  have hwhole : beforeFirst c (t ++ []) = t := beforeFirst_append h (by rintro _ ⟨⟩)
  rwa [List.append_nil] at hwhole

theorem afterLast_cons (c x : Char) (t : Text) :
    afterLast c (x :: t) = if c ∈ t then afterLast c t else if x = c then t else x :: t := by
  by_cases hc : c ∈ t
  · rw [if_pos hc]
    cases ht : cutLast? c t with
    | none => exact absurd hc (cutLast?_eq_none.1 ht)
    | some p => simp [afterLast, cutLast?, ht]
  · rw [if_neg hc]
    have ht := cutLast?_eq_none.2 hc
    by_cases hx : x = c
    · simp [afterLast, cutLast?, ht, hx]
    · simp [afterLast, cutLast?, ht, hx]

theorem afterLast_append {c : Char} (s : Text) {t : Text} (h : c ∉ t) :
    afterLast c (s ++ t) = afterLast c s ++ t := by
  induction s with
  | nil => rw [List.nil_append, afterLast, cutLast?_eq_none.2 h]; rfl
  | cons x s ih =>
    rw [List.cons_append, afterLast_cons, afterLast_cons, ih]
    by_cases hs : c ∈ s
    · simp [hs]
    · by_cases hx : x = c <;> simp [hs, h, hx]

theorem afterLast_behind (c : Char) (s t : Text) : afterLast c (s ++ c :: t) = afterLast c t := by
  cases ht : cutLast? c t with
  | none => rw [afterLast, cutLast?_append (cutLast?_eq_none.1 ht), afterLast, ht]
  | some cut =>
    obtain ⟨rfl, hafter⟩ := eq_of_cutLast? ht
    rw [afterLast, afterLast, ht, ← List.cons_append, ← List.append_assoc, cutLast?_append hafter]

theorem afterLast_of_not_mem {c : Char} {t : Text} (h : c ∉ t) : afterLast c t = t := by
  rw [afterLast, cutLast?_eq_none.2 h]

theorem mem_of_mem_afterLast {c x : Char} {t : Text} (h : x ∈ afterLast c t) : x ∈ t := by
  cases ht : cutLast? c t with
  | none => rwa [afterLast, ht] at h
  | some cut =>
    rw [afterLast, ht] at h
    rw [(eq_of_cutLast? ht).1]
    exact List.mem_append_right _ (List.mem_cons_of_mem _ h)

theorem dropEnding?_eq_none {c : Char} {t : Text} (h : t.getLast? ≠ some c) :
    dropEnding? [c] t = none := by
  rw [Option.eq_none_iff_forall_ne_some]
  intro rest hrest
  rw [dropEnding?_eq_some.1 hrest, List.getLast?_concat] at h
  exact h rfl

theorem dropEnding?_append (c : Char) (t : Text) : dropEnding? [c] (t ++ [c]) = some t :=
  dropEnding?_eq_some.2 rfl

theorem mem_joinWith {c : Char} {separator : Text} (h : c ∉ separator) {pieces : List Text} :
    c ∈ joinWith separator pieces ↔ ∃ piece ∈ pieces, c ∈ piece := by
  induction pieces with
  | nil => simp
  | cons a pieces ih =>
    cases pieces with
    | nil => simp
    | cons b pieces => rw [joinWith_cons_cons, List.mem_append, List.mem_append, ih]; simp [h]

theorem trimEnd_eq_self {p : Char → Bool} {t : Text} (h : ∀ c ∈ t.getLast?, p c = false) :
    trimEnd p t = t := by
  obtain ⟨dropped, ht, hp⟩ := trimEnd_append p t
  cases hd : dropped.getLast? with
  | none =>
    rw [List.getLast?_eq_none_iff.1 hd, List.append_nil] at ht
    exact ht.symm
  | some c =>
    have hlast : t.getLast? = some c := by rw [ht, List.getLast?_append, hd]; rfl
    have hc := List.all_eq_true.1 hp c (List.mem_of_getLast? hd)
    rw [h c hlast] at hc
    cases hc

theorem mem_of_mem_trimEnd {p : Char → Bool} {c : Char} {t : Text} (h : c ∈ trimEnd p t) : c ∈ t := by
  obtain ⟨dropped, ht, -⟩ := trimEnd_append p t
  rw [ht]
  exact List.mem_append_left dropped h

theorem mem_of_mem_trim {c : Char} {t : Text} (h : c ∈ trim t) : c ∈ t :=
  (List.dropWhile_sublist isBlank).subset (mem_of_mem_trimEnd h)

theorem trimEnd_append_space {p : Char → Bool} {space : Text} (hs : space.all p) (t : Text) :
    trimEnd p (t ++ space) = trimEnd p t := by
  induction t with
  | nil =>
    induction space with
    | nil => rfl
    | cons c cs ih =>
      rw [List.all_cons, Bool.and_eq_true] at hs
      have hmore : trimEnd p cs = [] := ih hs.2
      change trimEnd p (c :: cs) = []
      rw [trimEnd, hmore]
      exact if_pos hs.1
  | cons c cs ih => rw [List.cons_append, trimEnd, ih, trimEnd]

theorem trimEnd_append_of_all {p : Char → Bool} {t space : Text} (ht : ∀ c ∈ t, p c = false)
    (hs : space.all p) : trimEnd p (t ++ space) = t := by
  rw [trimEnd_append_space hs, trimEnd_eq_self fun c hc => ht c (List.mem_of_getLast? hc)]

theorem trim_eq_self {t : Text} (hf : ∀ c ∈ t.head?, isBlank c = false)
    (hl : ∀ c ∈ t.getLast?, isBlank c = false) : trim t = t := by
  have hstart : trimStart isBlank t = t := by
    cases t with
    | nil => rfl
    | cons c t => exact List.dropWhile_cons_of_neg (by rw [hf c rfl]; decide)
  rw [trim, trimBoth, hstart, trimEnd_eq_self hl]

theorem trim_of_not_blank {t : Text} (h : ∀ c ∈ t, isBlank c = false) : trim t = t :=
  trim_eq_self (fun c hc => h c (List.mem_of_head? hc)) fun c hc => h c (List.mem_of_getLast? hc)

theorem trim_append {s t : Text} {c : Char} (hf : isBlank c = false)
    (hl : ∀ d ∈ (c :: t).getLast?, isBlank d = false) :
    trim (s ++ c :: t) = trimStart isBlank s ++ c :: t := by
  have hstart : trimStart isBlank (s ++ c :: t) = trimStart isBlank s ++ c :: t := by
    induction s with
    | nil => exact List.dropWhile_cons_of_neg (by rw [hf]; decide)
    | cons x s ih =>
      cases hx : isBlank x with
      | true => rwa [List.cons_append, trimStart, trimStart, List.dropWhile_cons_of_pos hx,
          List.dropWhile_cons_of_pos hx]
      | false =>
        have hneg : ¬ isBlank x = true := by rw [hx]; decide
        rw [List.cons_append, trimStart, trimStart, List.dropWhile_cons_of_neg hneg,
          List.dropWhile_cons_of_neg hneg, List.cons_append]
  rw [trim, trimBoth, hstart, trimEnd_eq_self]
  intro d hd
  rw [List.getLast?_append, List.getLast?_cons] at hd
  exact hl d (by rw [List.getLast?_cons]; exact hd)

theorem trim_between {before t behind : Text} (hbefore : allBlank before = true)
    (ht : ∀ c ∈ t, isBlank c = false) (hbehind : allBlank behind = true) :
    trim (before ++ t ++ behind) = t := by
  cases t with
  | nil =>
    have hall : ∀ c ∈ before ++ behind, isBlank c = true := by
      intro c hc
      rcases List.mem_append.1 hc with hc | hc
      · exact List.all_eq_true.1 hbefore c hc
      · exact List.all_eq_true.1 hbehind c hc
    have hnone : trimStart isBlank (before ++ behind) = [] := by
      rw [trimStart, ← List.append_nil (before ++ behind), dropWhile_append hall (by rintro _ ⟨⟩)]
    rw [List.append_nil, trim, trimBoth, hnone, trimEnd]
  | cons c t =>
    have hstart : trimStart isBlank (before ++ (c :: t ++ behind)) = c :: t ++ behind := by
      refine dropWhile_append (List.all_eq_true.1 hbefore) ?_
      rintro _ ⟨⟩
      exact ht c List.mem_cons_self
    rw [trim, trimBoth, List.append_assoc, hstart, trimEnd_append_of_all ht hbehind]

theorem joinWith_concat {pieces : List Text} (h : pieces ≠ []) (separator piece : Text) :
    joinWith separator (pieces ++ [piece]) = joinWith separator pieces ++ separator ++ piece := by
  induction pieces with
  | nil => exact absurd rfl h
  | cons a pieces ih =>
    cases pieces with
    | nil => simp
    | cons b pieces =>
      have := ih (List.cons_ne_nil b pieces)
      simp_all

theorem splitOn_of_not_mem {c : Char} {t : Text} (h : c ∉ t) : splitOn c t = [t] := by
  induction t with
  | nil => rfl
  | cons x t ih =>
    rw [List.mem_cons, not_or] at h
    rw [splitOn, if_neg (Ne.symm h.1), ih h.2]

theorem splitOn_append (c : Char) (s t : Text) :
    splitOn c (s ++ c :: t) = splitOn c s ++ splitOn c t := by
  induction s with
  | nil => simp [splitOn]
  | cons x s ih =>
    rw [List.cons_append, splitOn, splitOn, ih]
    split
    · rfl
    · cases hs : splitOn c s with
      | nil => exact absurd hs (splitOn_ne_nil c s)
      | cons piece pieces => rfl

theorem not_mem_of_mem_splitOn {c : Char} {t piece : Text} (h : piece ∈ splitOn c t) : c ∉ piece := by
  induction t generalizing piece with
  | nil => simp_all [splitOn]
  | cons x t ih =>
    rw [splitOn] at h
    split at h
    · rcases List.mem_cons.1 h with rfl | h
      · exact List.not_mem_nil
      · exact ih h
    · next hx =>
      cases hs : splitOn c t with
      | nil => exact absurd hs (splitOn_ne_nil c t)
      | cons first more =>
        rw [hs] at h ih
        rcases List.mem_cons.1 h with rfl | h
        · rw [List.mem_cons, not_or]
          exact ⟨Ne.symm hx, ih List.mem_cons_self⟩
        · exact ih (List.mem_cons_of_mem first h)

end Docmark.Text
