/-!
Text as a list of characters, and the ways of cutting it: at the first or the last occurrence of a
character, at every occurrence, at the ends, around a part. Each cut comes with the law that puts
the pieces together again.
-/

namespace Docmark

abbrev Text := List Char

instance : Coe String Text := ⟨String.toList⟩

namespace Text

def cutFirst? (c : Char) : Text → Option (Text × Text)
  | [] => none
  | x :: xs =>
    if x = c then some ([], xs)
    else (cutFirst? c xs).map fun (before, after) => (x :: before, after)

def cutLast? (c : Char) : Text → Option (Text × Text)
  | [] => none
  | x :: xs =>
    match cutLast? c xs with
    | some (before, after) => some (x :: before, after)
    | none => if x = c then some ([], xs) else none

theorem eq_of_cutFirst? {c : Char} {t before after : Text} (h : cutFirst? c t = some (before, after)) :
    t = before ++ c :: after ∧ c ∉ before := by
  induction t generalizing before with
  | nil => simp [cutFirst?] at h
  | cons x xs ih =>
    simp only [cutFirst?] at h
    split at h
    · simp_all
    · next hx =>
      simp only [Option.map_eq_some_iff, Prod.mk.injEq, Prod.exists] at h
      obtain ⟨b, a, hb, rfl, rfl⟩ := h
      have := ih hb
      exact ⟨by simp [this.1], by simp [this.2, Ne.symm hx]⟩

theorem cutFirst?_eq_none {c : Char} {t : Text} : cutFirst? c t = none ↔ c ∉ t := by
  induction t with
  | nil => simp [cutFirst?]
  | cons x xs ih =>
    simp only [cutFirst?]
    split
    · simp_all
    · next hx => simp [ih, Ne.symm hx]

theorem cutLast?_eq_none {c : Char} {t : Text} : cutLast? c t = none ↔ c ∉ t := by
  induction t with
  | nil => simp [cutLast?]
  | cons x xs ih =>
    simp only [cutLast?]
    split
    · next hs =>
      have hc : c ∈ xs := by simpa [hs] using (not_congr ih).1
      simp [hc]
    · next hs =>
      have hc : c ∉ xs := ih.1 hs
      split
      · next hx => simp [hx]
      · next hx => simp [hc, Ne.symm hx]

theorem eq_of_cutLast? {c : Char} {t before after : Text} (h : cutLast? c t = some (before, after)) :
    t = before ++ c :: after ∧ c ∉ after := by
  induction t generalizing before with
  | nil => simp [cutLast?] at h
  | cons x xs ih =>
    simp only [cutLast?] at h
    split at h
    · next b a hb =>
      simp only [Option.some.injEq, Prod.mk.injEq] at h
      obtain ⟨rfl, rfl⟩ := h
      have := ih hb
      exact ⟨by simp [this.1], this.2⟩
    · next hn =>
      split at h
      · simp_all [cutLast?_eq_none]
      · simp at h

theorem length_of_cutFirst? {c : Char} {t before after : Text}
    (h : cutFirst? c t = some (before, after)) : before.length + after.length + 1 = t.length := by
  simp [(eq_of_cutFirst? h).1, Nat.add_assoc]

theorem length_of_cutLast? {c : Char} {t before after : Text}
    (h : cutLast? c t = some (before, after)) : before.length + after.length + 1 = t.length := by
  simp [(eq_of_cutLast? h).1, Nat.add_assoc]

def dropOpening? : Text → Text → Option Text
  | [], t => some t
  | _ :: _, [] => none
  | o :: os, x :: xs => if o = x then dropOpening? os xs else none

theorem dropOpening?_eq_some {opening t rest : Text} :
    dropOpening? opening t = some rest ↔ t = opening ++ rest := by
  induction opening generalizing t with
  | nil => simp [dropOpening?]
  | cons o os ih =>
    cases t with
    | nil => simp [dropOpening?]
    | cons x xs =>
      simp only [dropOpening?, Option.ite_none_right_eq_some, ih, List.cons_append,
        List.cons.injEq]
      exact and_congr_left fun _ => eq_comm

def cutAt? (part : Text) : Text → Option (Text × Text)
  | [] => if part.isEmpty then some ([], []) else none
  | x :: xs =>
    match dropOpening? part (x :: xs) with
    | some after => some ([], after)
    | none => (cutAt? part xs).map fun (before, after) => (x :: before, after)

theorem eq_of_cutAt? {part t before after : Text} (h : cutAt? part t = some (before, after)) :
    t = before ++ part ++ after := by
  induction t generalizing before with
  | nil =>
    simp only [cutAt?, Option.ite_none_right_eq_some, Option.some.injEq, Prod.mk.injEq] at h
    obtain ⟨hp, rfl, rfl⟩ := h
    simpa using hp
  | cons x xs ih =>
    simp only [cutAt?] at h
    split at h
    · next hp =>
      simp only [Option.some.injEq, Prod.mk.injEq] at h
      obtain ⟨rfl, rfl⟩ := h
      simpa using dropOpening?_eq_some.1 hp
    · simp only [Option.map_eq_some_iff, Prod.mk.injEq, Prod.exists] at h
      obtain ⟨b, a, hb, rfl, rfl⟩ := h
      simp [ih hb]

def afterLast (c : Char) (t : Text) : Text :=
  match cutLast? c t with
  | some (_, after) => after
  | none => t

def beforeFirst (c : Char) (t : Text) : Text :=
  t.takeWhile (· != c)

def splitOn (c : Char) : Text → List Text
  | [] => [[]]
  | x :: xs =>
    if x = c then [] :: splitOn c xs
    else
      match splitOn c xs with
      | [] => [[x]]
      | piece :: pieces => (x :: piece) :: pieces

def joinWith (separator : Text) (pieces : List Text) : Text :=
  separator.intercalate pieces

theorem splitOn_ne_nil (c : Char) (t : Text) : splitOn c t ≠ [] := by
  cases t with
  | nil => simp [splitOn]
  | cons x xs =>
    simp only [splitOn]
    split
    · simp
    · split <;> simp

@[simp] theorem joinWith_nil (separator : Text) : joinWith separator [] = [] := rfl

@[simp] theorem joinWith_singleton (separator piece : Text) : joinWith separator [piece] = piece := by
  simp [joinWith, List.intercalate]

@[simp] theorem joinWith_cons_cons (separator a b : Text) (pieces : List Text) :
    joinWith separator (a :: b :: pieces) = a ++ separator ++ joinWith separator (b :: pieces) := by
  simp [joinWith, List.intercalate]

theorem joinWith_splitOn (c : Char) (t : Text) : joinWith [c] (splitOn c t) = t := by
  induction t with
  | nil => simp [splitOn]
  | cons x xs ih =>
    simp only [splitOn]
    split
    · next hx =>
      subst hx
      cases hs : splitOn x xs with
      | nil => exact absurd hs (splitOn_ne_nil x xs)
      | cons piece pieces => rw [joinWith_cons_cons, ← hs, ih]; rfl
    · split
      · next hs => exact absurd hs (splitOn_ne_nil c xs)
      · next piece pieces hs =>
        rw [hs] at ih
        cases pieces with
        | nil => simp_all
        | cons next more => simpa using ih

def trimStart (p : Char → Bool) (t : Text) : Text :=
  t.dropWhile p

def trimEnd (p : Char → Bool) : Text → Text
  | [] => []
  | x :: xs =>
    match trimEnd p xs with
    | [] => if p x then [] else [x]
    | kept => x :: kept

def trimBoth (p : Char → Bool) (t : Text) : Text :=
  trimEnd p (trimStart p t)

theorem length_trimStart_le (p : Char → Bool) (t : Text) : (trimStart p t).length ≤ t.length :=
  (List.dropWhile_sublist p).length_le

theorem trimEnd_append (p : Char → Bool) (t : Text) :
    ∃ dropped, t = trimEnd p t ++ dropped ∧ dropped.all p := by
  induction t with
  | nil => exact ⟨[], rfl, rfl⟩
  | cons x xs ih =>
    obtain ⟨dropped, hd, hp⟩ := ih
    simp only [trimEnd]
    split
    · next hk =>
      rw [hk] at hd
      split
      · next hx => exact ⟨x :: dropped, by simpa using hd, by simp_all⟩
      · exact ⟨dropped, by simpa using hd, hp⟩
    · exact ⟨dropped, by simp [← hd], hp⟩

theorem length_trimEnd_le (p : Char → Bool) (t : Text) : (trimEnd p t).length ≤ t.length := by
  obtain ⟨dropped, hd, -⟩ := trimEnd_append p t
  have := congrArg List.length hd
  simp only [List.length_append] at this
  omega

theorem length_trimBoth_le (p : Char → Bool) (t : Text) : (trimBoth p t).length ≤ t.length :=
  Nat.le_trans (length_trimEnd_le p _) (length_trimStart_le p t)

def holds (part : Text) : Text → Bool
  | [] => part.isEmpty
  | x :: xs => part.isPrefixOf (x :: xs) || holds part xs

theorem holds_iff {part t : Text} : holds part t = true ↔ part <:+: t := by
  induction t with
  | nil => simp [holds]
  | cons x xs ih => simp [holds, ih, List.infix_cons_iff]

def dropEnding? (ending t : Text) : Option Text :=
  if ending.isSuffixOf t then some (t.take (t.length - ending.length)) else none

theorem dropEnding?_eq_some {ending t rest : Text} :
    dropEnding? ending t = some rest ↔ t = rest ++ ending := by
  simp only [dropEnding?, List.isSuffixOf_iff_suffix, Option.ite_none_right_eq_some,
    Option.some.injEq]
  constructor
  · rintro ⟨⟨front, rfl⟩, rfl⟩
    simp
  · rintro rfl
    exact ⟨List.suffix_append _ _, by simp⟩

def lowerAscii (t : Text) : Text :=
  t.map Char.toLower

def byteSize : Text → Nat
  | [] => 0
  | c :: cs => c.utf8Size + byteSize cs

theorem byteSize_append (s t : Text) : byteSize (s ++ t) = byteSize s + byteSize t := by
  induction s with
  | nil => simp [byteSize]
  | cons c cs ih => simp [byteSize, ih, Nat.add_assoc]

end Text
end Docmark
