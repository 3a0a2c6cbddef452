import Docmark.Proofs.Identifiers

/-!
Where a parameter list is cut: at the commas outside its brackets, so that it comes apart in exactly
one way into pieces which shelter their own commas.
-/

namespace Docmark.Params

def depthBehind (depth : Nat) (t : Text) : Nat :=
  t.foldl depthAfter depth

theorem depthBehind_cons (depth : Nat) (c : Char) (t : Text) :
    depthBehind depth (c :: t) = depthBehind (depthAfter depth c) t := rfl

theorem depthBehind_append (depth : Nat) (s t : Text) :
    depthBehind depth (s ++ t) = depthBehind (depthBehind depth s) t :=
  List.foldl_append

def Sheltered (depth : Nat) : Text → Prop
  | [] => True
  | c :: t => (c = ',' → 0 < depth) ∧ Sheltered (depthAfter depth c) t

theorem sheltered_append {depth : Nat} {s t : Text} :
    Sheltered depth (s ++ t) ↔ Sheltered depth s ∧ Sheltered (depthBehind depth s) t := by
  induction s generalizing depth with
  | nil => exact ⟨fun h => ⟨trivial, h⟩, And.right⟩
  | cons c s ih => rw [List.cons_append, Sheltered, Sheltered, ih, depthBehind_cons, and_assoc]

/-- A text that can stand among others wherever the depth is at least `least`: it has no comma to cut
at and comes back to the depth it started from. -/
structure Nested (least : Nat) (t : Text) : Prop where
  sheltered : ∀ depth, least ≤ depth → Sheltered depth t
  level : ∀ depth, least ≤ depth → depthBehind depth t = depth

variable {least : Nat} {s t : Text}

theorem Nested.mono (h : Nested least t) {more : Nat} (hle : least ≤ more) : Nested more t :=
  ⟨fun depth hd => h.sheltered depth (hle.trans hd), fun depth hd => h.level depth (hle.trans hd)⟩

theorem nested_nil : Nested least [] :=
  ⟨fun _ _ => trivial, fun _ _ => rfl⟩

theorem Nested.append (hs : Nested least s) (ht : Nested least t) : Nested least (s ++ t) where
  sheltered := by
    intro depth hd
    rw [sheltered_append, hs.level depth hd]
    exact ⟨hs.sheltered depth hd, ht.sheltered depth hd⟩
  level := by
    intro depth hd
    rw [depthBehind_append, hs.level depth hd, ht.level depth hd]

def IsFlat (least : Nat) (c : Char) : Prop :=
  (∀ depth, depthAfter depth c = depth) ∧ (c = ',' → 0 < least)

theorem nested_of_flat (h : ∀ c ∈ t, IsFlat least c) : Nested least t := by
  induction t with
  | nil => exact nested_nil
  | cons c t ih =>
    obtain ⟨hflat, hcomma⟩ := h c List.mem_cons_self
    have hrest := ih fun d hd => h d (List.mem_cons_of_mem _ hd)
    constructor
    · intro depth hd
      rw [Sheltered, hflat]
      exact ⟨fun hc => Nat.lt_of_lt_of_le (hcomma hc) hd, hrest.sheltered depth hd⟩
    · intro depth hd
      rw [depthBehind_cons, hflat, hrest.level depth hd]

theorem Nested.bracketed {opening closing : Char} (ho : ∀ depth, depthAfter depth opening = depth + 1)
    (hc : ∀ depth, depthAfter depth closing = depth - 1) (ht : Nested 1 t) :
    Nested 0 (opening :: (t ++ [closing])) := by
  have hopening : opening ≠ ',' := by
    rintro rfl
    exact absurd (ho 0) (by decide)
  have hclosing : closing ≠ ',' := by
    rintro rfl
    exact absurd (hc 1) (by decide)
  have hinner (depth : Nat) : depthBehind (depth + 1) t = depth + 1 :=
    ht.level (depth + 1) (Nat.le_add_left _ _)
  constructor
  · intro depth _
    rw [Sheltered, ho, sheltered_append]
    refine ⟨fun h => absurd h hopening, ht.sheltered _ (Nat.le_add_left _ _), ?_⟩
    exact ⟨fun h => absurd h hclosing, trivial⟩
  · intro depth _
    rw [depthBehind_cons, ho, depthBehind_append, hinner, depthBehind_cons, hc]
    rfl

theorem nested_joinWith {pieces : List Text} (h : ∀ p ∈ pieces, Nested 1 p) :
    Nested 1 (Text.joinWith "," pieces) := by
  have hcomma : Nested 1 "," := by
    apply nested_of_flat
    rintro c hc
    rw [List.mem_singleton.1 hc]
    exact ⟨fun _ => rfl, fun _ => Nat.one_pos⟩
  induction pieces with
  | nil => exact nested_nil
  | cons p pieces ih =>
    have hrest := ih fun q hq => h q (List.mem_cons_of_mem _ hq)
    cases pieces with
    | nil => simpa using h p List.mem_cons_self
    | cons q pieces =>
      rw [Text.joinWith_cons_cons]
      exact ((h p List.mem_cons_self).append hcomma).append hrest

def prependFirst (s : Text) : List Text → List Text
  | [] => [s]
  | piece :: pieces => (s ++ piece) :: pieces

theorem splitFrom_append {depth : Nat} (h : Sheltered depth s) (t : Text) :
    splitFrom depth (s ++ t) = prependFirst s (splitFrom (depthBehind depth s) t) := by
  induction s generalizing depth with
  | nil =>
    obtain ⟨piece, pieces, hp⟩ := List.exists_cons_of_ne_nil (splitFrom_ne_nil depth t)
    rw [List.nil_append, depthBehind, List.foldl_nil, hp]
    rfl
  | cons c s ih =>
    have hcut : ¬ (c = ',' ∧ depth = 0) := fun hc => Nat.ne_of_gt (h.1 hc.1) hc.2
    rw [List.cons_append, splitFrom, if_neg hcut, ih h.2]
    obtain ⟨piece, pieces, hp⟩ :=
      List.exists_cons_of_ne_nil (splitFrom_ne_nil (depthBehind (depthAfter depth c) s) t)
    rw [depthBehind_cons, hp]
    rfl

theorem splitFrom_of_sheltered {depth : Nat} (h : Sheltered depth t) : splitFrom depth t = [t] := by
  have hwhole := splitFrom_append h []
  rwa [List.append_nil, splitFrom, prependFirst, List.append_nil] at hwhole

theorem sheltered_of_not_mem (h : ',' ∉ t) (depth : Nat) : Sheltered depth t := by
  induction t generalizing depth with
  | nil => trivial
  | cons c t ih =>
    rw [List.mem_cons, not_or] at h
    exact ⟨fun hc => absurd hc.symm h.1, ih h.2 _⟩

/-- The commas of each piece stand in brackets, and each piece but the last ends outside all of them,
when the first one starts at the given depth. -/
def CutFrom (depth : Nat) : List Text → Prop
  | [] => True
  | p :: pieces => Sheltered depth p ∧ (pieces ≠ [] → depthBehind depth p = 0) ∧ CutFrom 0 pieces

theorem cutFrom_splitFrom (depth : Nat) (t : Text) : CutFrom depth (splitFrom depth t) := by
  induction t generalizing depth with
  | nil => exact ⟨trivial, fun h => absurd rfl h, trivial⟩
  | cons c t ih =>
    rw [splitFrom]
    split
    · next hcut =>
      rw [hcut.2]
      exact ⟨trivial, fun _ => rfl, ih 0⟩
    · next hcut =>
      have hrest := ih (depthAfter depth c)
      obtain ⟨piece, pieces, hp⟩ := List.exists_cons_of_ne_nil (splitFrom_ne_nil (depthAfter depth c) t)
      rw [hp] at hrest ⊢
      have hcomma (hc : c = ',') : 0 < depth := Nat.pos_of_ne_zero fun hd => hcut ⟨hc, hd⟩
      exact ⟨⟨hcomma, hrest.1⟩, hrest.2⟩

theorem splitFrom_joinWith {depth : Nat} {pieces : List Text} (hne : pieces ≠ [])
    (h : CutFrom depth pieces) : splitFrom depth (Text.joinWith "," pieces) = pieces := by
  induction pieces generalizing depth with
  | nil => exact absurd rfl hne
  | cons p pieces ih =>
    obtain ⟨hs, hl, hrest⟩ := h
    cases pieces with
    | nil => rw [Text.joinWith_singleton, splitFrom_of_sheltered hs]
    | cons q pieces =>
      rw [Text.joinWith_cons_cons, List.append_assoc, splitFrom_append hs, hl (List.cons_ne_nil q pieces)]
      have hcut : splitFrom 0 ((",":Text) ++ Text.joinWith "," (q :: pieces)) =
          [] :: splitFrom 0 (Text.joinWith "," (q :: pieces)) := rfl
      rw [hcut, ih (List.cons_ne_nil q pieces) hrest, prependFirst, List.append_nil]

theorem cutFrom_of_nested {pieces : List Text} (h : ∀ p ∈ pieces, Nested 0 p) : CutFrom 0 pieces := by
  induction pieces with
  | nil => trivial
  | cons p pieces ih =>
    have hp := h p List.mem_cons_self
    have hrest := ih fun q hq => h q (List.mem_cons_of_mem _ hq)
    exact ⟨hp.sheltered 0 (Nat.le_refl 0), fun _ => hp.level 0 (Nat.le_refl 0), hrest⟩

theorem sheltered_iff {depth : Nat} :
    Sheltered depth t ↔ ∀ before behind, t = before ++ ',' :: behind → 1 ≤ depthBehind depth before := by
  constructor
  · rintro h before behind rfl
    exact (sheltered_append.1 h).2.1 rfl
  · intro h
    induction t generalizing depth with
    | nil => trivial
    | cons c t ih =>
      constructor
      · rintro rfl
        exact h [] t rfl
      · apply ih
        rintro before behind rfl
        exact h (c :: before) behind rfl

theorem cutFrom_zero_iff {pieces : List Text} :
    CutFrom 0 pieces ↔
      (∀ p ∈ pieces, Sheltered 0 p) ∧ ∀ p ∈ pieces.dropLast, depthBehind 0 p = 0 := by
  induction pieces with
  | nil => simp [CutFrom]
  | cons p pieces ih =>
    cases pieces with
    | nil => simp [CutFrom]
    | cons q pieces =>
      rw [CutFrom, ih, List.dropLast_cons_cons, List.forall_mem_cons (a := p), List.forall_mem_cons (a := p)]
      constructor
      · rintro ⟨hs, hl, hrest, hlevel⟩
        exact ⟨⟨hs, hrest⟩, hl (List.cons_ne_nil q pieces), hlevel⟩
      · rintro ⟨⟨hs, hrest⟩, hl, hlevel⟩
        exact ⟨hs, fun _ => hl, hrest, hlevel⟩

/-- A list that is not blank comes apart in exactly one way: into the pieces that are joined to it and
have no comma outside their brackets, all but the last one ending outside their brackets. -/
theorem split_inverts_joining (h : Text.allBlank t = false) (pieces : List Text) :
    split t = pieces ↔
      pieces ≠ [] ∧ Text.joinWith "," pieces = t ∧
      (∀ p ∈ pieces, ∀ before behind, p = before ++ ',' :: behind → 1 ≤ depthBehind 0 before) ∧
      ∀ p ∈ pieces.dropLast, depthBehind 0 p = 0 := by
  have hsplit : split t = splitFrom 0 t := if_neg (h ▸ Bool.false_ne_true)
  have hcut : ((∀ p ∈ pieces, ∀ before behind, p = before ++ ',' :: behind → 1 ≤ depthBehind 0 before) ∧
      ∀ p ∈ pieces.dropLast, depthBehind 0 p = 0) ↔ CutFrom 0 pieces := by
    simp only [cutFrom_zero_iff, sheltered_iff]
  rw [hcut, hsplit]
  constructor
  · rintro rfl
    exact ⟨splitFrom_ne_nil 0 t, joinWith_splitFrom 0 t, cutFrom_splitFrom 0 t⟩
  · rintro ⟨hne, rfl, hpieces⟩
    exact splitFrom_joinWith hne hpieces

theorem split_inverts_joining_unbalanced :
    let first : Text := "A]"
    let last : Text := "B(C[D,E)"
    Text.allBlank "A],B(C[D,E)" = false ∧ split "A],B(C[D,E)" = [first, last] ∧
      depthBehind 0 first = 0 ∧ depthBehind 0 last = 1 := by
  intro first last
  have hblank : Text.allBlank "A],B(C[D,E)" = false := by decide
  have hsheltered : ∀ p ∈ [first, last], Sheltered 0 p := by
    simp [first, last, Sheltered, depthAfter]
  have hlevel : depthBehind 0 first = 0 := rfl
  refine ⟨hblank, (split_inverts_joining hblank [first, last]).2 ⟨by simp, rfl, ?_, ?_⟩, hlevel, rfl⟩
  · intro p hp
    exact sheltered_iff.1 (hsheltered p hp)
  · intro p hp
    rw [List.mem_singleton.1 hp, hlevel]

end Docmark.Params
