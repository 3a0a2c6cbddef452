import Mathlib.Algebra.Group.Nat.Defs
import Mathlib.Data.List.Chain
import Docmark.Text.Blank
import Docmark.Text.Case
import Docmark.Text.Property.Alphanumeric

namespace Docmark

/-- The code points of the runs as the bits of a number, so that a whole table is compared at once. -/
def bitsOf : List (Nat × Nat) → Nat
  | [] => 0
  | r :: ranges => (2 ^ (r.2 + 1 - r.1) - 1) <<< r.1 ||| bitsOf ranges

theorem testBit_bitsOf {ranges : List (Nat × Nat)} {n : Nat} :
    (bitsOf ranges).testBit n = true ↔ ∃ r ∈ ranges, r.1 ≤ n ∧ n ≤ r.2 := by
  induction ranges with
  | nil => simp [bitsOf]
  | cons r ranges ih =>
    have hfirst : n ≥ r.1 ∧ n - r.1 < r.2 + 1 - r.1 ↔ r.1 ≤ n ∧ n ≤ r.2 := by omega
    rw [bitsOf, Nat.testBit_or, Bool.or_eq_true, ih, Nat.testBit_shiftLeft,
      Nat.testBit_two_pow_sub_one, Bool.and_eq_true, decide_eq_true_iff, decide_eq_true_iff, hfirst]
    simp only [List.mem_cons, exists_eq_or_imp]

theorem inRanges_of_mem {ranges : List (Nat × Nat)} (hp : ranges.Pairwise fun r s => r.1 ≤ s.1)
    {r : Nat × Nat} (hr : r ∈ ranges) {c : Char} (hf : r.1 ≤ c.toNat) (hl : c.toNat ≤ r.2) :
    inRanges ranges c = true := by
  induction hp with
  | nil => cases hr
  | @cons s ranges hs _ ih =>
    rw [inRanges]
    rcases List.mem_cons.1 hr with rfl | hr
    · rw [if_neg (Nat.not_lt.2 hf), decide_eq_true hl, Bool.true_or]
    · rw [if_neg (Nat.not_lt.2 (Nat.le_trans (hs r hr) hf)), ih hr, Bool.or_true]

theorem alphanumericRanges_ascend : alphanumericRanges.Pairwise fun r s => r.1 ≤ s.1 := by
  have hchain : alphanumericRanges.IsChain fun r s => r.1 ≤ s.1 := by decide +kernel
  have : IsTrans (Nat × Nat) fun r s => r.1 ≤ s.1 := ⟨fun _ _ _ => Nat.le_trans⟩
  exact List.isChain_iff_pairwise.1 hchain

theorem isAlphanumeric_iff {c : Char} :
    isAlphanumeric c = true ↔ (bitsOf alphanumericRanges).testBit c.toNat = true := by
  rw [testBit_bitsOf]
  constructor
  · exact exists_of_inRanges
  · rintro ⟨r, hr, hf, hl⟩
    exact inRanges_of_mem alphanumericRanges_ascend hr hf hl

theorem alphanumericRanges_valid :
    ∀ r ∈ alphanumericRanges, r.2 < 0xD800 ∨ 0xDFFF < r.1 ∧ r.2 < 0x110000 := by
  decide +kernel

theorem isAlphanumeric_ofNat {n : Nat} (h : (bitsOf alphanumericRanges).testBit n = true) :
    isAlphanumeric (Char.ofNat n) = true := by
  obtain ⟨r, hr, hf, hl⟩ := testBit_bitsOf.1 h
  have hvalid : n.isValidChar := by
    rcases alphanumericRanges_valid r hr with h | h
    · exact Or.inl (by omega)
    · exact Or.inr ⟨by omega, by omega⟩
  have hnumber : (Char.ofNat n).toNat = n := by
    rw [Char.ofNat, dif_pos hvalid]
    rfl
  rwa [isAlphanumeric_iff, hnumber]

def blankRanges : List (Nat × Nat) := [
  (9, 13), (0x20, 0x20), (0x85, 0x85), (0xA0, 0xA0), (0x1680, 0x1680), (0x2000, 0x200A),
  (0x2028, 0x2029), (0x202F, 0x202F), (0x205F, 0x205F), (0x3000, 0x3000)]

theorem testBit_of_isBlank {c : Char} (h : isBlank c = true) :
    (bitsOf blankRanges).testBit c.toNat = true := by
  simp only [isBlank, Bool.or_eq_true, Bool.and_eq_true, decide_eq_true_eq, beq_iff_eq] at h
  rw [testBit_bitsOf]
  simp only [blankRanges, List.mem_cons, List.not_mem_nil, or_false, exists_eq_or_imp, exists_eq_left]
  omega

theorem not_isBlank_of_isAlphanumeric {c : Char} (h : isAlphanumeric c = true) :
    isBlank c = false := by
  have hapart : bitsOf blankRanges &&& bitsOf alphanumericRanges = 0 := by decide +kernel
  by_contra hblank
  have hboth : (bitsOf blankRanges &&& bitsOf alphanumericRanges).testBit c.toNat = true := by
    rw [Nat.testBit_and, testBit_of_isBlank (eq_true_of_ne_false hblank),
      isAlphanumeric_iff.1 h]
    rfl
  rw [hapart, Nat.zero_testBit] at hboth
  cases hboth

theorem CaseRun.find_cases (runs : List CaseRun) (n : Nat) :
    find runs n = n ∨ ∃ r ∈ runs, r.first ≤ n ∧ n ≤ r.last ∧ (n - r.first) % r.step = 0 ∧
      find runs n = r.target + (n - r.first) := by
  induction runs with
  | nil => exact Or.inl rfl
  | cons r runs ih =>
    rw [find]
    by_cases hf : n < r.first
    · rw [if_pos hf]
      exact Or.inl rfl
    · by_cases hr : n ≤ r.last ∧ (n - r.first) % r.step = 0
      · rw [if_neg hf, if_pos hr]
        exact Or.inr ⟨r, List.mem_cons_self, Nat.not_lt.1 hf, hr.1, hr.2, rfl⟩
      · rw [if_neg hf, if_neg hr]
        rcases ih with h | ⟨s, hs, h⟩
        · exact Or.inl h
        · exact Or.inr ⟨s, List.mem_cons_of_mem _ hs, h⟩

theorem lowerRuns_letters :
    (lowerRuns.all fun r => (List.range ((r.last - r.first) / r.step + 1)).all fun k =>
      (bitsOf alphanumericRanges).testBit (r.first + k * r.step) &&
        (bitsOf alphanumericRanges).testBit (r.target + k * r.step)) = true := by
  decide +kernel

theorem isAlphanumeric_of_mem_lowerRuns {r : CaseRun} (hr : r ∈ lowerRuns) {c : Char}
    (hf : r.first ≤ c.toNat) (hl : c.toNat ≤ r.last) (hs : (c.toNat - r.first) % r.step = 0) :
    isAlphanumeric c = true ∧ isAlphanumeric (Char.ofNat (r.target + (c.toNat - r.first))) = true := by
  let k := (c.toNat - r.first) / r.step
  have hk : k * r.step = c.toNat - r.first := Nat.div_mul_cancel (Nat.dvd_of_mod_eq_zero hs)
  have hrange : k ∈ List.range ((r.last - r.first) / r.step + 1) :=
    List.mem_range.2 (Nat.lt_succ_of_le (Nat.div_le_div_right (Nat.sub_le_sub_right hl _)))
  have hletters := List.all_eq_true.1 (List.all_eq_true.1 lowerRuns_letters r hr) k hrange
  rw [hk, Nat.add_sub_cancel' hf, Bool.and_eq_true] at hletters
  exact ⟨isAlphanumeric_iff.2 hletters.1, isAlphanumeric_ofNat hletters.2⟩

theorem lowerChar_of_not_isAlphanumeric {c : Char} (h : isAlphanumeric c = false) :
    lowerChar c = [c] := by
  have hc : c ≠ 'İ' := by
    rintro rfl
    exact absurd h (by decide)
  rw [lowerChar, if_neg hc]
  rcases CaseRun.find_cases lowerRuns c.toNat with hfind | ⟨r, hr, hf, hl, hs, -⟩
  · rw [hfind, Char.ofNat_toNat]
  · rw [(isAlphanumeric_of_mem_lowerRuns hr hf hl hs).1] at h
    cases h

def dotAbove : Char :=
  '\u0307'

theorem lowerChar_of_isAlphanumeric {c : Char} (h : isAlphanumeric c = true) :
    ∃ d ds, lowerChar c = d :: ds ∧ isAlphanumeric d = true ∧ ∀ x ∈ ds, x = dotAbove := by
  rw [lowerChar]
  by_cases hc : c = 'İ'
  · rw [if_pos hc]
    exact ⟨'i', [dotAbove], rfl, by decide, fun x hx => List.mem_singleton.1 hx⟩
  · rw [if_neg hc]
    refine ⟨_, [], rfl, ?_, fun x hx => absurd hx List.not_mem_nil⟩
    rcases CaseRun.find_cases lowerRuns c.toNat with hfind | ⟨r, hr, hf, hl, hs, hfind⟩
    · rwa [hfind, Char.ofNat_toNat]
    · rw [hfind]
      exact (isAlphanumeric_of_mem_lowerRuns hr hf hl hs).2

namespace Text

theorem lowerAfter_cons (before : Text) (c : Char) (rest : Text) :
    ∃ form, lowerAfter before (c :: rest) = form ++ lowerAfter (c :: before) rest ∧
      form.length = (lowerChar c).length ∧ (isAlphanumeric c = false → form = [c]) := by
  by_cases hc : c = 'Σ'
  · subst hc
    refine ⟨_, by rw [lowerAfter, if_pos rfl], ?_, fun h => absurd h (by decide)⟩
    have hlower : lowerChar 'Σ' = ['σ'] := by decide
    rw [hlower]
    rfl
  · refine ⟨_, by rw [lowerAfter, if_neg hc], rfl, lowerChar_of_not_isAlphanumeric⟩

theorem mem_lowerAfter {t : Text} {c : Char} (h : isAlphanumeric c = false) (hc : c ∈ t)
    (before : Text) : c ∈ lowerAfter before t := by
  induction t generalizing before with
  | nil => cases hc
  | cons d t ih =>
    obtain ⟨form, hform, -, hsame⟩ := lowerAfter_cons before d t
    rw [hform, List.mem_append]
    rcases List.mem_cons.1 hc with rfl | hc
    · rw [hsame h]
      exact Or.inl (List.mem_singleton_self c)
    · exact Or.inr (ih hc _)

end Text
end Docmark
