namespace Docmark

def inRanges : List (Nat × Nat) → Char → Bool
  | [], _ => false
  | (first, last) :: ranges, c =>
    if c.toNat < first then false else c.toNat ≤ last || inRanges ranges c

theorem exists_of_inRanges {ranges : List (Nat × Nat)} {c : Char} (h : inRanges ranges c = true) :
    ∃ r ∈ ranges, r.1 ≤ c.toNat ∧ c.toNat ≤ r.2 := by
  induction ranges with
  | nil => simp [inRanges] at h
  | cons r ranges ih =>
    obtain ⟨first, last⟩ := r
    simp only [inRanges, Bool.if_false_left, Bool.and_eq_true, Bool.or_eq_true, decide_eq_true_eq,
      Bool.not_eq_true', decide_eq_false_iff_not, Nat.not_lt] at h
    obtain ⟨hf, hl | hr⟩ := h
    · exact ⟨_, List.mem_cons_self, hf, hl⟩
    · obtain ⟨r, hr, hc⟩ := ih hr
      exact ⟨r, List.mem_cons_of_mem _ hr, hc⟩

end Docmark
