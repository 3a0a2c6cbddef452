import Mathlib.Data.List.Basic
import Mathlib.Data.List.TakeWhile
import Docmark.Files.Path
import Docmark.Proofs.Cuts

namespace Docmark

namespace Path

structure IsName (name : Text) : Prop where
  ne_nil : name ≠ []
  plain : '/' ∉ name
  ne_here : name ≠ "."
  ne_up : name ≠ ".."

instance (name : Text) : Decidable (IsName name) :=
  decidable_of_iff (name ≠ [] ∧ '/' ∉ name ∧ name ≠ "." ∧ name ≠ "..")
    ⟨fun h => ⟨h.1, h.2.1, h.2.2.1, h.2.2.2⟩, fun h => ⟨h.ne_nil, h.plain, h.ne_here, h.ne_up⟩⟩

def IsFront (front : Text) : Prop :=
  front = [] ∨ ∃ before, front = before ++ "/"

variable {front name : Text} {p q : Path}

theorem dropTail_reverse_name (h : IsName name) (rest : Text) :
    dropTail (name.reverse ++ rest) = name.reverse ++ rest := by
  have hplain := h.plain
  have hne := h.ne_nil
  have hhere := h.ne_here
  obtain ⟨c, t, ht⟩ := List.exists_cons_of_ne_nil (List.reverse_ne_nil_iff.2 hne)
  have hmem : ∀ d ∈ c :: t, d ≠ '/' := by
    rintro d hd rfl
    exact hplain (List.mem_reverse.1 (ht ▸ hd))
  rw [ht, List.cons_append]
  unfold dropTail
  split
  · next heq =>
    cases heq
    exact absurd rfl (hmem '/' List.mem_cons_self)
  · next heq =>
    cases t with
    | nil =>
      cases heq
      exact absurd (List.reverse_eq_iff.1 ht) hhere
    | cons d t =>
      cases heq
      exact absurd rfl (hmem '/' (List.mem_cons_of_mem _ List.mem_cons_self))
  · rfl

theorem split?_append (hf : IsFront front) (h : IsName name) : split? (front ++ name) = some (front, name) := by
  have hplain : ∀ c ∈ name.reverse, (c != '/') = true := by
    intro c hc
    rw [bne_iff_ne]
    rintro rfl
    exact h.plain (List.mem_reverse.1 hc)
  have hfront : front.reverse.takeWhile (· != '/') = [] ∧
      front.reverse.dropWhile (· != '/') = front.reverse := by
    rcases hf with rfl | ⟨before, rfl⟩
    · exact ⟨rfl, rfl⟩
    · simp
  have hname : (name.isEmpty || decide (name = ".") || decide (name = "..")) = false := by
    rw [decide_eq_false h.ne_here, decide_eq_false h.ne_up, List.isEmpty_eq_false_iff.2 h.ne_nil]
    rfl
  rw [split?, List.reverse_append, dropTail_reverse_name h, List.takeWhile_append_of_pos hplain,
    List.dropWhile_append_of_pos hplain, hfront.1, hfront.2, List.append_nil, List.reverse_reverse,
    List.reverse_reverse]
  exact if_neg (hname ▸ Bool.false_ne_true)

theorem fileName?_append (hf : IsFront front) (h : IsName name) : fileName? (front ++ name) = some name := by
  rw [fileName?, split?_append hf h, Option.map_some]

def frontOf (p : Path) : Text :=
  if p.isEmpty || p.getLast? = some '/' then p else p ++ "/"

theorem isFront_frontOf (p : Path) : IsFront (frontOf p) := by
  unfold frontOf
  split
  · next h =>
    rw [Bool.or_eq_true, List.isEmpty_iff, decide_eq_true_eq] at h
    apply h.imp_right
    exact fun hlast => List.getLast?_eq_some_iff.1 hlast
  · exact .inr ⟨p, rfl⟩

theorem join_eq (h : IsName name) (p : Path) : join p name = frontOf p ++ name := by
  have hrelative : isAbsolute name = false := by
    cases name with
    | nil => rfl
    | cons c t =>
      have hc : c ≠ '/' := fun hc => h.plain (hc ▸ List.mem_cons_self)
      simp [isAbsolute, hc]
  by_cases hempty : p = []
  · simp [join, frontOf, hempty]
  · by_cases hlast : p.getLast? = some '/' <;> simp [join, frontOf, hrelative, hempty, hlast]

theorem fileName?_join (h : IsName name) (p : Path) : fileName? (join p name) = some name := by
  rw [join_eq h, fileName?_append (isFront_frontOf p) h]

theorem exists_front {names : List Text} (h : Text.splitOn '/' p = names ++ [name]) :
    ∃ front, IsFront front ∧ p = front ++ name := by
  rw [← Text.joinWith_splitOn '/' p, h]
  cases names with
  | nil => exact ⟨[], .inl rfl, by simp⟩
  | cons first names =>
    refine ⟨Text.joinWith "/" (first :: names) ++ "/", .inr ⟨_, rfl⟩, ?_⟩
    exact Text.joinWith_concat (List.cons_ne_nil first names) _ _

theorem split?_eq_some (h : split? p = some (front, name)) : IsFront front ∧ IsName name := by
  unfold split? at h
  extract_lets body last at h
  rw [Option.ite_none_left_eq_some] at h
  obtain ⟨hname, heq⟩ := h
  obtain ⟨rfl, rfl⟩ := Prod.mk.inj (Option.some.inj heq)
  rw [Bool.or_eq_true, Bool.or_eq_true, decide_eq_true_eq, decide_eq_true_eq, List.isEmpty_iff, not_or,
    not_or] at hname
  constructor
  · cases hrest : body.dropWhile (· != '/') with
    | nil => exact .inl rfl
    | cons c rest =>
      have hc := List.head?_dropWhile_not (· != '/') body
      rw [hrest] at hc
      have hc : c = '/' := by simpa using hc
      exact .inr ⟨rest.reverse, by rw [List.reverse_cons, hc]; rfl⟩
  · refine ⟨hname.1.1, ?_, hname.1.2, hname.2⟩
    intro hslash
    have := List.mem_takeWhile_imp (List.mem_reverse.1 hslash)
    exact absurd rfl (bne_iff_ne.1 this)

theorem isName_of_fileName? (h : fileName? p = some name) : IsName name := by
  obtain ⟨⟨front, last⟩, hsplit, rfl⟩ := Option.map_eq_some_iff.1 h
  exact (split?_eq_some hsplit).2

theorem join_ne_nil (hp : p ≠ []) (q : Path) : join p q ≠ [] := by
  unfold join
  split
  · next hq =>
    rw [Bool.or_eq_true, List.isEmpty_iff] at hq
    rintro rfl
    cases hq.resolve_right hp
  · split <;> simp [hp]

theorem foldl_join_ne_nil (hp : p ≠ []) (names : List Text) : names.foldl join p ≠ [] := by
  induction names generalizing p with
  | nil => exact hp
  | cons name names ih => exact ih (join_ne_nil hp name)

theorem byteSize_le_join (h : IsName name) (p : Path) : Text.byteSize p ≤ Text.byteSize (join p name) := by
  rw [join_eq h, frontOf]
  split <;> simp only [Text.byteSize_append] <;> omega

theorem splitOn_join (hp : p ≠ []) (h : IsName name) :
    ∃ names blanks, Text.splitOn '/' p = names ++ blanks ∧ (blanks = [] ∨ blanks = [[]]) ∧ names ≠ [] ∧
      Text.splitOn '/' (join p name) = names ++ [name] := by
  rw [join_eq h, frontOf]
  split
  · next hlast =>
    obtain ⟨before, rfl⟩ : ∃ before, p = before ++ ['/'] := by
      rw [Bool.or_eq_true, List.isEmpty_iff, decide_eq_true_eq] at hlast
      exact List.getLast?_eq_some_iff.1 (hlast.resolve_left hp)
    refine ⟨Text.splitOn '/' before, [[]], Text.splitOn_append '/' before [], .inr rfl,
      Text.splitOn_ne_nil '/' before, ?_⟩
    rw [List.append_assoc, List.singleton_append, Text.splitOn_append, Text.splitOn_of_not_mem h.plain]
  · refine ⟨Text.splitOn '/' p, [], (List.append_nil _).symm, .inl rfl, Text.splitOn_ne_nil '/' p, ?_⟩
    rw [List.append_assoc]
    change Text.splitOn '/' (p ++ '/' :: name) = _
    rw [Text.splitOn_append, Text.splitOn_of_not_mem h.plain]

theorem isAbsolute_join (hp : p ≠ []) (h : IsName name) :
    isAbsolute (join p name) = isAbsolute p := by
  rw [join_eq h, frontOf, isAbsolute, isAbsolute]
  cases p with
  | nil => exact absurd rfl hp
  | cons c p => split <;> rfl

variable {stem extension : Text}

theorem exists_stem (h : extension? p = some extension) :
    ∃ front stem, split? p = some (front, stem ++ "." ++ extension) ∧ stem ≠ [] ∧
      ∀ other, withExtension p other = front ++ (stem ++ "." ++ other) := by
  unfold extension? fileName? at h
  cases hsplit : split? p with
  | none => simp [hsplit] at h
  | some parts =>
    obtain ⟨front, name⟩ := parts
    have hname : (splitExtension name).2 = some extension := by simpa [hsplit] using h
    cases hcut : Text.cutLast? '.' name with
    | none => simp [splitExtension, hcut] at hname
    | some cut =>
      obtain ⟨stem, last⟩ := cut
      obtain ⟨rfl, -⟩ := Text.eq_of_cutLast? hcut
      by_cases hempty : stem = []
      · rw [splitExtension, hcut] at hname
        simp [hempty] at hname
      · have hstem : splitExtension (stem ++ '.' :: last) = (stem, some last) := by
          simp [splitExtension, hcut, hempty]
        rw [hstem] at hname
        obtain rfl := Option.some.inj hname
        refine ⟨front, stem, by rw [List.append_assoc]; rfl, hempty, ?_⟩
        intro other
        simp only [withExtension, hsplit, hstem, List.append_assoc]

theorem isName_extended {other : Text} (h : IsName (stem ++ "." ++ extension)) (hstem : stem ≠ [])
    (hne : other ≠ []) (hplain : '/' ∉ other) : IsName (stem ++ "." ++ other) := by
  have hlength : 3 ≤ (stem ++ "." ++ other).length := by
    have := List.length_pos_of_ne_nil hstem
    have := List.length_pos_of_ne_nil hne
    simp
    omega
  have hslash : '/' ∉ stem := fun hmem => h.plain (by simp [hmem])
  refine ⟨by simp, by simp [hslash, hplain], ?_, ?_⟩
  · intro heq
    rw [heq] at hlength
    simp at hlength
  · intro heq
    rw [heq] at hlength
    simp at hlength

end Path

end Docmark
