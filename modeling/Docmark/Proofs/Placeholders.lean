import Mathlib.Data.List.TakeWhile
import Mathlib.Data.Nat.Digits.Defs
import Docmark.Proofs.Headings

namespace Docmark

inductive Part
  | char (c : Char)
  | placeholder (digits : Text)

namespace Part

def written : Part → Text
  | char c => [c]
  | placeholder digits => '{' :: (digits ++ ['}'])

def number (digits : Text) : Nat :=
  Nat.ofDigits 10 (digits.reverse.map fun d => d.toNat - '0'.toNat)

def value (values : List Text) : Part → Text
  | char c => [c]
  | placeholder digits => if number digits < 2 ^ 64 then values.getD (number digits) [] else []

def piece : Part → Piece
  | char c => .char c
  | placeholder digits => .slot (number digits)

theorem value_piece (values : List Text) (p : Part) : p.piece.value values = p.value values := by
  cases p <;> rfl

theorem number_eq (digits : Text) : number digits = Template.number digits := by
  rw [number, Nat.ofDigits_eq_foldr, List.foldr_map, List.foldr_reverse, Template.number]
  simp only [Nat.cast_id, Nat.add_comm]

end Part

def allWritten (parts : List Part) : Text :=
  parts.flatMap Part.written

theorem allWritten_placeholder (digits : Text) (parts : List Part) :
    allWritten (.placeholder digits :: parts) = '{' :: (digits ++ '}' :: allWritten parts) := by
  simp [allWritten, Part.written]

def IsNumber (digits : Text) : Prop :=
  digits ≠ [] ∧ ∀ c ∈ digits, c.isDigit = true

def OpensPlaceholder (t : Text) : Prop :=
  ∃ digits rest, IsNumber digits ∧ t = digits ++ '}' :: rest

/-- The template falls into these parts: every placeholder has a number, and no brace stands for
itself that could open a placeholder. -/
structure Splits (template : Text) (parts : List Part) : Prop where
  written_eq : allWritten parts = template
  numbered : ∀ digits, .placeholder digits ∈ parts → IsNumber digits
  plain : ∀ before behind, parts = before ++ .char '{' :: behind →
    ¬ OpensPlaceholder (allWritten behind)

namespace Splits

variable {template : Text} {parts : List Part}

theorem nil : Splits [] [] :=
  ⟨rfl, fun _ h => absurd h List.not_mem_nil, fun before behind h => by simp at h⟩

theorem cons {p : Part} (h : Splits template parts)
    (hp : ∀ digits, p = .placeholder digits → IsNumber digits)
    (hbrace : p = .char '{' → ¬ OpensPlaceholder template) :
    Splits (p.written ++ template) (p :: parts) := by
  refine ⟨?_, ?_, ?_⟩
  · rw [allWritten, List.flatMap_cons, ← h.written_eq, allWritten]
  · intro digits hmem
    rcases List.mem_cons.1 hmem with hd | hmem
    · exact hp digits hd.symm
    · exact h.numbered digits hmem
  · intro before behind heq
    cases before with
    | nil =>
      obtain ⟨hchar, rfl⟩ := List.cons.inj heq
      rw [h.written_eq]
      exact hbrace hchar
    | cons q before => exact h.plain before behind (List.cons.inj heq).2

theorem tail {p : Part} (h : Splits template (p :: parts)) : Splits (allWritten parts) parts :=
  ⟨rfl, fun digits hmem => h.numbered digits (List.mem_cons_of_mem p hmem),
    fun before behind heq => h.plain (p :: before) behind (congrArg (p :: ·) heq)⟩

theorem eq_of_digits {digits others : Text} (hd : IsNumber digits) (ho : IsNumber others)
    {rest more : Text} (h : digits ++ '}' :: rest = others ++ '}' :: more) :
    digits = others ∧ rest = more := by
  have hbrace {t : Text} (ht : IsNumber t) : '}' ∉ t := fun hmem => absurd (ht.2 '}' hmem) (by decide)
  have hcut := Text.cutFirst?_append (hbrace hd) rest
  rw [h, Text.cutFirst?_append (hbrace ho) more] at hcut
  cases hcut
  exact ⟨rfl, rfl⟩

theorem front {p q : Part} {others : List Part} (h : Splits template (p :: parts))
    (ho : Splits template (q :: others)) : p = q ∧ allWritten parts = allWritten others := by
  have hwritten : allWritten (p :: parts) = allWritten (q :: others) :=
    h.written_eq.trans ho.written_eq.symm
  cases p with
  | char c =>
    cases q with
    | char d =>
      obtain ⟨rfl, hrest⟩ := List.cons.inj hwritten
      exact ⟨rfl, hrest⟩
    | placeholder digits =>
      rw [allWritten_placeholder] at hwritten
      obtain ⟨rfl, hrest⟩ := List.cons.inj hwritten
      exact absurd ⟨digits, _, ho.numbered digits List.mem_cons_self, hrest⟩ (h.plain [] parts rfl)
  | placeholder digits =>
    have hd := h.numbered digits List.mem_cons_self
    rw [allWritten_placeholder] at hwritten
    cases q with
    | char d =>
      obtain ⟨rfl, hrest⟩ := List.cons.inj hwritten
      exact absurd ⟨digits, _, hd, hrest.symm⟩ (ho.plain [] others rfl)
    | placeholder more =>
      rw [allWritten_placeholder] at hwritten
      obtain ⟨rfl, hrest⟩ := eq_of_digits hd (ho.numbered more List.mem_cons_self)
        (List.cons.inj hwritten).2
      exact ⟨rfl, hrest⟩

theorem eq_nil_iff (h : Splits template parts) : parts = [] ↔ template = [] := by
  rw [← h.written_eq]
  cases parts with
  | nil => exact iff_of_true rfl rfl
  | cons p parts => cases p <;> simp [allWritten, Part.written]

theorem unique {others : List Part} (h : Splits template parts) (ho : Splits template others) :
    parts = others := by
  induction parts generalizing template others with
  | nil => exact (ho.eq_nil_iff.2 (h.eq_nil_iff.1 rfl)).symm
  | cons p parts ih =>
    cases others with
    | nil => exact h.eq_nil_iff.2 (ho.eq_nil_iff.1 rfl)
    | cons q others =>
      obtain ⟨rfl, hrest⟩ := h.front ho
      rw [ih h.tail (hrest ▸ ho.tail)]

end Splits

namespace Template

theorem slot?_eq_some {t rest : Text} {n : Nat} (h : slot? t = some (n, rest)) :
    ∃ digits, IsNumber digits ∧ t = digits ++ '}' :: rest ∧ n = Part.number digits := by
  unfold slot? at h
  split at h
  · next d ds behind hd hb =>
    simp only [Option.some.injEq, Prod.mk.injEq] at h
    obtain ⟨rfl, rfl⟩ := h
    refine ⟨d :: ds, ⟨List.cons_ne_nil d ds, ?_⟩, ?_, (Part.number_eq _).symm⟩
    · intro c hc
      rw [← hd] at hc
      exact List.mem_takeWhile_imp hc
    · rw [← hd, ← hb, List.takeWhile_append_dropWhile]
  · cases h

theorem not_opensPlaceholder_of_slot? {t : Text} (h : slot? t = none) : ¬ OpensPlaceholder t := by
  rintro ⟨digits, rest, hd, rfl⟩
  rw [slot?_append hd.1 hd.2] at h
  cases h

theorem exists_splits (t : Text) : ∃ parts, Splits t parts ∧ pieces t = parts.map Part.piece := by
  induction t using pieces.induct with
  | case1 => exact ⟨[], .nil, by rw [pieces]; rfl⟩
  | case2 rest n behind hs ih =>
    obtain ⟨parts, hparts, hpieces⟩ := ih
    obtain ⟨digits, hd, rfl, rfl⟩ := slot?_eq_some hs
    have hsplits := hparts.cons (p := .placeholder digits)
      (fun _ heq => by cases heq; exact hd) (fun heq => by cases heq)
    have hwritten : (Part.placeholder digits).written ++ behind = '{' :: (digits ++ '}' :: behind) := by
      simp [Part.written]
    refine ⟨.placeholder digits :: parts, hwritten ▸ hsplits, ?_⟩
    rw [pieces, if_pos rfl, hs]
    exact congrArg (Piece.slot (Part.number digits) :: ·) hpieces
  | case3 rest hs ih =>
    obtain ⟨parts, hparts, hpieces⟩ := ih
    have hsplits := hparts.cons (p := .char '{') (fun _ heq => by cases heq)
      fun _ => not_opensPlaceholder_of_slot? hs
    refine ⟨.char '{' :: parts, hsplits, ?_⟩
    rw [pieces, if_pos rfl, hs]
    exact congrArg (Piece.char '{' :: ·) hpieces
  | case4 c rest hc ih =>
    obtain ⟨parts, hparts, hpieces⟩ := ih
    have hsplits := hparts.cons (p := .char c) (fun _ heq => by cases heq)
      fun heq => absurd (Part.char.inj heq) hc
    refine ⟨.char c :: parts, hsplits, ?_⟩
    rw [pieces, if_neg hc, hpieces]
    rfl

end Template

theorem templates_filled_in_one_pass (template : Text) :
    ∃ parts, (∀ others, Splits template others ↔ others = parts) ∧
      (∀ values, fill template values = parts.flatMap (Part.value values)) ∧
      ∀ content e inside ctx, (Rule.apply ⟨template, content⟩ e inside ctx).result =
        (content.values e inside ctx).result.map fun values => parts.flatMap (Part.value values) := by
  obtain ⟨parts, hparts, hpieces⟩ := Template.exists_splits template
  have hfill : ∀ values, fill template values = parts.flatMap (Part.value values) := by
    intro values
    rw [fill, hpieces, List.flatMap_map]
    exact congrArg (parts.flatMap ·) (funext (Part.value_piece values))
  refine ⟨parts, fun others => ⟨fun ho => ho.unique hparts, fun ho => ho ▸ hparts⟩, hfill, ?_⟩
  intro content e inside ctx
  exact (Outcome.result_map _ _).trans (congrArg (Except.map · _) (funext hfill))

example : fill "\x7b{00}{1}{x}{18446744073709551616}\x7b" ["{1}", "b"] = "\x7b{1}b{x}\x7b" := by
  decide +kernel

end Docmark
