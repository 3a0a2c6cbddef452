import Mathlib.Data.List.DropRight
import Mathlib.Data.List.ModifyLast
import Docmark.Proofs.Blanks
import Docmark.Proofs.Cuts
import Docmark.Proofs.LineBreaks
import Docmark.Text.CodeBlock

/-!
The lines of code blocks: which of the source are kept, how far they stay indented, and why the page
keeps them when it is cleaned up.
-/

namespace Docmark.Text

theorem splitOn_eq_listSplitOn (c : Char) (t : Text) : splitOn c t = List.splitOn c t := by
  induction t with
  | nil => rfl
  | cons x t ih =>
    rw [splitOn, List.splitOn_cons_eq_if_modifyHead, ← ih]
    by_cases hx : x = c
    · rw [if_pos hx, if_pos (beq_iff_eq.2 hx)]
    · rw [if_neg hx, if_neg (fun h => hx (beq_iff_eq.1 h))]
      cases hs : splitOn c t with
      | nil => exact absurd hs (splitOn_ne_nil c t)
      | cons piece pieces => rfl

theorem splitOn_joinWith {c : Char} {pieces : List Text} (hne : pieces ≠ [])
    (h : ∀ piece ∈ pieces, c ∉ piece) : splitOn c (joinWith [c] pieces) = pieces := by
  rw [splitOn_eq_listSplitOn]
  exact List.splitOn_intercalate c h hne

section

variable {p : Char → Bool}

theorem trimEnd_concat (p : Char → Bool) (t : Text) (c : Char) :
    trimEnd p (t ++ [c]) = if p c then trimEnd p t else t ++ [c] := by
  induction t with
  | nil => by_cases hc : p c = true <;> simp [trimEnd, hc]
  | cons x t ih =>
    rw [List.cons_append, trimEnd, ih]
    by_cases hc : p c = true
    · rw [if_pos hc, if_pos hc, trimEnd]
    · rw [if_neg hc, if_neg hc]
      cases t <;> rfl

theorem trimEnd_eq_rdropWhile (p : Char → Bool) (t : Text) : trimEnd p t = List.rdropWhile p t := by
  induction t using List.reverseRecOn with
  | nil => rfl
  | append_singleton t c ih => rw [trimEnd_concat, List.rdropWhile_concat, ih]

theorem trimEnd_trimEnd (p : Char → Bool) (t : Text) : trimEnd p (trimEnd p t) = trimEnd p t := by
  rw [trimEnd_eq_rdropWhile p t, trimEnd_eq_rdropWhile, List.rdropWhile_idempotent]

theorem getLast?_trimEnd (p : Char → Bool) (t : Text) : ∀ c ∈ (trimEnd p t).getLast?, p c = false := by
  intro c hc
  rw [trimEnd_eq_rdropWhile, Option.mem_def, List.getLast?_eq_some_iff] at hc
  obtain ⟨front, hfront⟩ := hc
  have hlast := List.rdropWhile_last_not p t (by rw [hfront]; simp)
  simpa [hfront] using hlast

theorem trimEnd_behind (s : Text) {t : Text} (h : t.all p = false) :
    trimEnd p (s ++ t) = s ++ trimEnd p t := by
  induction t using List.reverseRecOn with
  | nil => cases h
  | append_singleton t c ih =>
    rw [← List.append_assoc, trimEnd_concat, trimEnd_concat]
    by_cases hc : p c = true
    · rw [if_pos hc, if_pos hc, ih]
      simpa [hc] using h
    · rw [if_neg hc, if_neg hc, List.append_assoc]

theorem allBlank_trimEnd (t : Text) : allBlank (trimEnd isBlank t) = allBlank t := by
  obtain ⟨dropped, ht, hdropped⟩ := trimEnd_append isBlank t
  have hblank : allBlank dropped = true := hdropped
  have hwhole := allBlank_append (trimEnd isBlank t) dropped
  rw [← ht, hblank, Bool.and_true] at hwhole
  exact hwhole.symm

end

structure IsCodeLine (line : Text) : Prop where
  unbroken : '\n' ∉ line
  inked : allBlank line = false
  trimmed : trimEnd (· == '\r') line = line

theorem IsCodeLine.ne_nil {line : Text} (h : IsCodeLine line) : line ≠ [] := by
  rintro rfl
  cases h.inked

theorem isCodeLine_of_mem_codeLines {t line : Text} (h : line ∈ codeLines t) : IsCodeLine line := by
  obtain ⟨hmap, hblank⟩ := List.mem_filter.1 h
  obtain ⟨piece, hpiece, rfl⟩ := List.mem_map.1 hmap
  exact ⟨fun hbreak => not_mem_of_mem_splitOn hpiece (mem_of_mem_trimEnd hbreak),
    by simpa using hblank, trimEnd_trimEnd _ piece⟩

theorem codeLines_joinWith {lines : List Text} (h : ∀ line ∈ lines, IsCodeLine line) :
    codeLines (joinWith ['\n'] lines) = lines := by
  cases lines with
  | nil => rfl
  | cons first more =>
    have hsplit := splitOn_joinWith (List.cons_ne_nil first more) fun line hl => (h line hl).unbroken
    have htrimmed : (first :: more).map (trimEnd (· == '\r')) = first :: more :=
      (List.map_congr_left fun line hl => (h line hl).trimmed).trans (List.map_id _)
    rw [codeLines, hsplit, htrimmed, List.filter_eq_self]
    intro line hl
    rw [(h line hl).inked, Bool.not_false]

theorem eq_append_dedent (depth : Nat) (line : Text) :
    line = List.replicate (min depth (indentation line)) ' ' ++ dedent depth line := by
  have hspaces : line.take (min depth (indentation line)) =
      List.replicate (min depth (indentation line)) ' ' := by
    rw [List.eq_replicate_iff]
    constructor
    · have hle : indentation line ≤ line.length := (List.takeWhile_prefix _).length_le
      rw [List.length_take]
      omega
    · intro c hc
      have hwhile : c ∈ line.takeWhile (· == ' ') := by
        have hprefix : line.take (indentation line) = line.takeWhile (· == ' ') :=
          List.prefix_iff_eq_take.1 (List.takeWhile_prefix _) |>.symm
        rw [← hprefix]
        exact (List.take_subset_take_left line (Nat.min_le_right _ _)) hc
      exact beq_iff_eq.1 (List.mem_takeWhile_imp (p := (· == ' ')) hwhile)
  rw [← hspaces, dedent, List.take_append_drop]

theorem IsCodeLine.dedent {line : Text} (h : IsCodeLine line) (depth : Nat) :
    IsCodeLine (dedent depth line) := by
  generalize hn : min depth (indentation line) = n
  have hline := eq_append_dedent depth line
  rw [hn] at hline
  have hspaces : allBlank (List.replicate n ' ') = true := by
    rw [allBlank, List.all_replicate]
    simp [isBlank]
  have hinked : allBlank (Text.dedent depth line) = false := by
    have hwhole := h.inked
    rwa [hline, allBlank_append, hspaces, Bool.true_and] at hwhole
  refine ⟨fun hbreak => h.unbroken ?_, hinked, ?_⟩
  · rw [hline]
    exact List.mem_append_right _ hbreak
  · have hends : (Text.dedent depth line).all (· == '\r') = false := by
      by_contra hall
      rw [Bool.not_eq_false, List.all_eq_true] at hall
      have hblank : allBlank (Text.dedent depth line) = true :=
        List.all_eq_true.2 fun c hc => beq_iff_eq.1 (hall c hc) ▸ rfl
      rw [hinked] at hblank
      cases hblank
    have htrimmed := h.trimmed
    rw [hline, trimEnd_behind _ hends] at htrimmed
    exact List.append_cancel_left htrimmed

theorem IsCodeLine.trimEnd {line : Text} (h : IsCodeLine line) : IsCodeLine (trimEnd isBlank line) := by
  refine ⟨fun hbreak => h.unbroken (mem_of_mem_trimEnd hbreak), ?_, ?_⟩
  · rw [allBlank_trimEnd, h.inked]
  · apply trimEnd_eq_self
    intro c hc
    have hink := getLast?_trimEnd isBlank line c hc
    rw [beq_eq_false_iff_ne]
    rintro rfl
    cases hink

theorem indentation_spaces (n : Nat) (t : Text) :
    indentation (List.replicate n ' ' ++ t) = n + indentation t := by
  have hspaces : ∀ c ∈ List.replicate n ' ', (c == ' ') = true := by
    intro c hc
    rw [List.eq_of_mem_replicate hc]
    rfl
  rw [indentation, List.takeWhile_append_of_pos hspaces, List.length_append, List.length_replicate]
  rfl

theorem indentation_dedent (depth : Nat) (line : Text) :
    indentation (dedent depth line) = indentation line - depth := by
  have hline := congrArg indentation (eq_append_dedent depth line)
  rw [indentation_spaces] at hline
  omega

theorem indentation_prefix_le {s t : Text} (h : s <+: t) : indentation s ≤ indentation t := by
  obtain ⟨rest, rfl⟩ := h
  rw [indentation, indentation, List.takeWhile_append]
  split
  · next hs =>
    rw [hs, List.length_append]
    exact Nat.le_add_right _ _
  · exact Nat.le_refl _

def dedentedLines (t : Text) : List Text :=
  (codeLines t).map (dedent (((codeLines t).head?.map indentation).getD 0))

def shownLines (t : Text) : List Text :=
  (dedentedLines t).modifyLast (trimEnd isBlank)

theorem isCodeLine_of_mem_dedentedLines {t line : Text} (h : line ∈ dedentedLines t) :
    IsCodeLine line := by
  obtain ⟨source, hsource, rfl⟩ := List.mem_map.1 h
  exact (isCodeLine_of_mem_codeLines hsource).dedent _

theorem isCodeLine_of_mem_shownLines {t line : Text} (h : line ∈ shownLines t) : IsCodeLine line := by
  have hdedented : ∀ line ∈ dedentedLines t, IsCodeLine line := fun _ =>
    isCodeLine_of_mem_dedentedLines
  rw [shownLines] at h
  rcases List.eq_nil_or_concat' (dedentedLines t) with hnil | ⟨front, last, hlast⟩
  · rw [hnil] at h
    cases h
  · rw [hlast] at h hdedented
    rw [List.modifyLast_concat] at h
    rcases List.mem_append.1 h with h | h
    · exact hdedented line (List.mem_append_left _ h)
    · rw [List.mem_singleton.1 h]
      exact (hdedented last (List.mem_append_right _ List.mem_cons_self)).trimEnd

theorem trimEnd_joinWith {lines : List Text} (h : ∀ line ∈ lines, IsCodeLine line) :
    trimEnd isBlank (joinWith ['\n'] lines) =
      joinWith ['\n'] (lines.modifyLast (trimEnd isBlank)) := by
  rcases List.eq_nil_or_concat' lines with rfl | ⟨front, last, rfl⟩
  · rfl
  · have hlast : allBlank last = false :=
      (h last (List.mem_append_right _ List.mem_cons_self)).inked
    rw [List.modifyLast_concat]
    cases front with
    | nil => simp
    | cons first more =>
      have hne : first :: more ≠ [] := List.cons_ne_nil first more
      rw [joinWith_concat hne, joinWith_concat hne, trimEnd_behind _ hlast]

theorem codeBlock_eq_trimEnd (t : Text) :
    codeBlock t = trimEnd isBlank (joinWith ['\n'] (dedentedLines t)) := by
  cases hlines : codeLines t with
  | nil => rw [codeBlock, dedentedLines, hlines]; rfl
  | cons first more => rw [codeBlock, dedentedLines, hlines]; rfl

theorem codeBlock_eq (t : Text) : codeBlock t = joinWith ['\n'] (shownLines t) := by
  rw [codeBlock_eq_trimEnd, trimEnd_joinWith fun _ => isCodeLine_of_mem_dedentedLines, shownLines]

theorem indentation_head_shownLines (t : Text) :
    ((shownLines t).head?.map indentation).getD 0 = 0 := by
  rw [shownLines, dedentedLines]
  cases codeLines t with
  | nil => rfl
  | cons first more =>
    have hfirst : indentation (dedent (indentation first) first) = 0 := by
      rw [indentation_dedent, Nat.sub_self]
    rw [List.head?_cons, Option.map_some, Option.getD_some, List.map_cons]
    cases more with
    | nil =>
      obtain ⟨dropped, hdropped, -⟩ := trimEnd_append isBlank (dedent (indentation first) first)
      have hle := indentation_prefix_le ⟨dropped, hdropped.symm⟩
      rw [hfirst] at hle
      exact Nat.le_zero.1 hle
    | cons second more =>
      rw [← List.singleton_append, List.modifyLast_append_of_right_ne_nil _ _ _ (by simp)]
      exact hfirst

theorem codeBlock_codeBlock (t : Text) : codeBlock (codeBlock t) = codeBlock t := by
  have hlines : codeLines (codeBlock t) = shownLines t := by
    rw [codeBlock_eq, codeLines_joinWith fun _ => isCodeLine_of_mem_shownLines]
  have hdedent : dedent 0 = id := by
    funext line
    rw [dedent, Nat.zero_min, List.drop_zero, id]
  have hdedented : dedentedLines (codeBlock t) = shownLines t := by
    rw [dedentedLines, hlines, indentation_head_shownLines, hdedent, List.map_id]
  rw [codeBlock_eq_trimEnd, hdedented, ← codeBlock_eq, codeBlock_eq_trimEnd, trimEnd_trimEnd]

theorem codeBlock_congr {s t : Text} (h : codeLines s = codeLines t) : codeBlock s = codeBlock t := by
  rw [codeBlock_eq_trimEnd, codeBlock_eq_trimEnd, dedentedLines, dedentedLines, h]

def withReturns (t : Text) : Text :=
  t.flatMap fun c => if c = '\n' then ['\r', '\n'] else [c]

theorem map_trimEnd_splitOn_withReturns (t : Text) :
    (splitOn '\n' (withReturns t)).map (trimEnd (· == '\r')) =
      (splitOn '\n' t).map (trimEnd (· == '\r')) := by
  induction t with
  | nil => rfl
  | cons c t ih =>
    by_cases hc : c = '\n'
    · subst hc
      have hline : withReturns ('\n' :: t) = ['\r'] ++ '\n' :: withReturns t := rfl
      have hempty : '\n' :: t = [] ++ '\n' :: t := rfl
      rw [hline, hempty, splitOn_append, splitOn_append, List.map_append, List.map_append, ih]
      rfl
    · have hline : withReturns (c :: t) = c :: withReturns t := by
        rw [withReturns, List.flatMap_cons, if_neg hc]
        rfl
      obtain ⟨piece, pieces, hs⟩ := List.exists_cons_of_ne_nil (splitOn_ne_nil '\n' (withReturns t))
      obtain ⟨other, others, ht⟩ := List.exists_cons_of_ne_nil (splitOn_ne_nil '\n' t)
      rw [hs, ht, List.map_cons, List.map_cons, List.cons.injEq] at ih
      rw [hline, splitOn, splitOn, if_neg hc, if_neg hc, hs, ht]
      dsimp only
      rw [List.map_cons, List.map_cons, trimEnd, trimEnd, ih.1, ih.2]

theorem codeLines_withReturns (t : Text) : codeLines (withReturns t) = codeLines t := by
  rw [codeLines, map_trimEnd_splitOn_withReturns, codeLines]

theorem breaks_apart {t : Text} (h : [] ∉ splitOn '\n' t) :
    ¬ ['\n', '\n'] <:+: t ∧ t.head? ≠ some '\n' ∧ t.getLast? ≠ some '\n' := by
  refine ⟨?_, ?_, ?_⟩
  · rintro ⟨before, behind, rfl⟩
    apply h
    rw [List.append_assoc, List.cons_append, List.singleton_append, splitOn_append]
    exact List.mem_append_right _ List.mem_cons_self
  · intro hhead
    obtain ⟨behind, rfl⟩ := List.head?_eq_some_iff.1 hhead
    exact h List.mem_cons_self
  · intro hlast
    obtain ⟨before, rfl⟩ := List.getLast?_eq_some_iff.1 hlast
    apply h
    rw [splitOn_append]
    exact List.mem_append_right _ List.mem_cons_self

theorem breaks_apart_codeBlock (t : Text) : ¬ ['\n', '\n'] <:+: codeBlock t ∧
    (codeBlock t).head? ≠ some '\n' ∧ (codeBlock t).getLast? ≠ some '\n' := by
  rw [codeBlock_eq]
  by_cases hne : shownLines t = []
  · rw [hne]
    simp
  · apply breaks_apart
    rw [splitOn_joinWith hne fun line hline => (isCodeLine_of_mem_shownLines hline).unbroken]
    exact fun hnil => (isCodeLine_of_mem_shownLines hnil).ne_nil rfl

theorem squeezeBreaks_around_codeBlock {t : Text} (h : codeBlock t ≠ []) (a b : Text) :
    squeezeBreaks (a ++ "\n" ++ codeBlock t ++ "\n" ++ b) =
      squeezeBreaks (a ++ "\n") ++ codeBlock t ++ squeezeBreaks ("\n" ++ b) := by
  obtain ⟨hapart, hfirst, hlast⟩ := breaks_apart_codeBlock t
  have hspare : ¬ spareBreaks <:+: codeBlock t := fun hthree =>
    hapart (List.IsInfix.trans ⟨[], ['\n'], rfl⟩ hthree)
  rw [List.append_assoc _ "\n".toList b, squeezeBreaks_around h hfirst hlast,
    squeezeBreaks_eq_self hspare]

theorem code_blocks_keep_lines (t : Text) :
    let source := (List.splitOn '\n' t).map (List.rdropWhile (· == '\r'))
    let kept := source.filter (·.any (!isBlank ·))
    let own (line : Text) := (line.takeWhile (· == ' ')).length
    let depth := (kept.head?.map own).getD 0
    let shown := kept.map fun line => line.drop (min depth (own line))
    let block := codeBlock t
    block = ['\n'].intercalate (shown.modifyLast (List.rdropWhile isBlank)) ∧
      (¬ ['\n', '\n'] <:+: block ∧ block.head? ≠ some '\n' ∧ block.getLast? ≠ some '\n') ∧
      codeBlock block = block ∧
      codeBlock (t.flatMap fun c => if c = '\n' then ['\r', '\n'] else [c]) = block ∧
      (block ≠ [] → ∀ a b, squeezeBreaks (a ++ "\n" ++ block ++ "\n" ++ b) =
        squeezeBreaks (a ++ "\n") ++ block ++ squeezeBreaks ("\n" ++ b)) := by
  intro source kept own depth shown block
  have hkept : codeLines t = kept := by
    have hends : trimEnd (· == '\r') = List.rdropWhile (· == '\r') :=
      funext fun line => trimEnd_eq_rdropWhile _ line
    have hinked : (fun line => !allBlank line) = fun line => line.any (!isBlank ·) :=
      funext fun _ => List.not_all_eq_any_not
    rw [codeLines, splitOn_eq_listSplitOn, hends, hinked]
  have hshown : shownLines t = shown.modifyLast (List.rdropWhile isBlank) := by
    have hend : trimEnd isBlank = List.rdropWhile isBlank :=
      funext fun line => trimEnd_eq_rdropWhile _ line
    rw [shownLines, dedentedLines, hkept, hend]
    rfl
  refine ⟨?_, breaks_apart_codeBlock t, codeBlock_codeBlock t, ?_, fun h => ?_⟩
  · rw [← hshown]
    exact codeBlock_eq t
  · exact codeBlock_congr (codeLines_withReturns t)
  · exact squeezeBreaks_around_codeBlock h

theorem code_blocks_keep_lines_uneven :
    let source : Text := "\r\n    if ready:\r\r\n \t\n      run()\n  stop() \t\r\n"
    let block : Text := "if ready:\n  run()\nstop()"
    Text.codeBlock source = block ∧ Text.codeBlock source ≠ [] ∧ Text.codeBlock block = block ∧
      Text.squeezeBreaks ("\n\n" ++ "\n" ++ block ++ "\n" ++ "\n\n") = "\n\n" ++ block ++ "\n\n" := by
  intro source block
  have hblock : codeBlock source = block := by decide
  have hne : codeBlock source ≠ [] := by
    rw [hblock]
    decide
  obtain ⟨-, -, hagain, -, hsqueeze⟩ := code_blocks_keep_lines source
  rw [hblock] at hagain
  refine ⟨hblock, hne, hagain, ?_⟩
  have hpage := hsqueeze hne "\n\n" "\n\n"
  rw [hblock] at hpage
  exact hpage.trans (by decide)

end Docmark.Text
