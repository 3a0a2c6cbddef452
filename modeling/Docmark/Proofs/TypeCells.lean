import Docmark.Page.Link

/-!
Types in cells against the whole of what their descriptors say: of the arguments a cell shows the
names alone, and of the array dimensions no more than one.
-/

namespace Docmark

namespace Text

theorem append_eq_append_iff {s s' t t' : Text} (hs : s.length ≤ s'.length)
    (ht : t.length ≤ t'.length) : s ++ t = s' ++ t' ↔ s = s' ∧ t = t' := by
  constructor
  · intro h
    have hlength := congrArg List.length h
    simp only [List.length_append] at hlength
    exact List.append_inj h (by omega)
  · rintro ⟨rfl, rfl⟩
    rfl

section

variable {α : Type} {f g : α → Text} {items : List α}

theorem length_joinWith_le (h : ∀ a ∈ items, (f a).length ≤ (g a).length) (separator : Text) :
    (joinWith separator (items.map f)).length ≤ (joinWith separator (items.map g)).length := by
  induction items with
  | nil => exact Nat.le_refl _
  | cons a items ih =>
    have ha := h a List.mem_cons_self
    have hitems := ih fun b hb => h b (List.mem_cons_of_mem a hb)
    cases items with
    | nil => simpa using ha
    | cons b items =>
      simp only [List.map_cons, joinWith_cons_cons, List.length_append] at hitems ⊢
      omega

theorem joinWith_map_eq_iff (h : ∀ a ∈ items, (f a).length ≤ (g a).length) (separator : Text) :
    joinWith separator (items.map f) = joinWith separator (items.map g) ↔
      ∀ a ∈ items, f a = g a := by
  induction items with
  | nil => simp
  | cons a items ih =>
    have ha := h a List.mem_cons_self
    have hitems : ∀ b ∈ items, (f b).length ≤ (g b).length :=
      fun b hb => h b (List.mem_cons_of_mem a hb)
    cases items with
    | nil => simp
    | cons b items =>
      have hrest := length_joinWith_le hitems separator
      simp only [List.map_cons] at hrest ih
      have hfront : (f a ++ separator).length ≤ (g a ++ separator).length := by
        simp only [List.length_append]
        omega
      simp only [List.map_cons, joinWith_cons_cons]
      rw [append_eq_append_iff hfront hrest, ih hitems, List.append_cancel_right_eq,
        List.forall_mem_cons (a := a)]

end

end Text

namespace TypeDescriptor

def bracketPairs (n : Nat) : Text :=
  (List.replicate n ['[', ']']).flatten

def countPairs : Text → Nat
  | ']' :: '[' :: rest => countPairs rest + 1
  | _ => 0

def rank (d : TypeDescriptor) : Nat :=
  countPairs d.name.reverse

def argumentList (texts : List Text) : Text :=
  if texts.isEmpty then [] else "‹" ++ (Text.joinWith ", " texts ++ "›")

mutual

def wholeText : TypeDescriptor → Text
  | ⟨name, namespaceName, assembly, arguments⟩ =>
    let d : TypeDescriptor := ⟨name, namespaceName, assembly, arguments⟩
    d.shortName ++ (argumentList (wholeTexts arguments) ++ bracketPairs d.rank)

def wholeTexts : List TypeDescriptor → List Text
  | [] => []
  | d :: ds => wholeText d :: wholeTexts ds

end

theorem wholeTexts_eq_map (ds : List TypeDescriptor) : wholeTexts ds = ds.map wholeText := by
  induction ds with
  | nil => rfl
  | cons d ds ih => rw [wholeTexts, ih, List.map_cons]

variable {d : TypeDescriptor}

theorem wholeText_eq (d : TypeDescriptor) : d.wholeText =
    d.shortName ++ (argumentList (d.arguments.map wholeText) ++ bracketPairs d.rank) := by
  obtain ⟨name, namespaceName, assembly, arguments⟩ := d
  rw [wholeText, wholeTexts_eq_map]

theorem length_bracketPairs (n : Nat) : (bracketPairs n).length = 2 * n := by
  simp [bracketPairs, Nat.mul_comm]

theorem argumentList_eq_nil_iff {texts : List Text} : argumentList texts = [] ↔ texts = [] := by
  rw [argumentList]
  cases texts <;> simp

theorem countPairs_pos_iff {t : Text} : 0 < countPairs t ↔ [']', '['] <+: t := by
  unfold countPairs
  split
  · simp
  · next hne =>
    refine iff_of_false (Nat.lt_irrefl 0) ?_
    rintro ⟨rest, h⟩
    exact hne rest h.symm

theorem countPairs_append {base : Text} (h : ¬ ['[', ']'] <:+ base) (n : Nat) :
    countPairs (base ++ bracketPairs n).reverse = n := by
  induction n with
  | zero =>
    have hfront : ¬ [']', '['] <+: (base ++ bracketPairs 0).reverse := by
      rw [← List.reverse_prefix] at h
      simpa [bracketPairs] using h
    have := mt countPairs_pos_iff.1 hfront
    omega
  | succ n ih =>
    have hlast : (base ++ bracketPairs (n + 1)).reverse =
        ']' :: '[' :: (base ++ bracketPairs n).reverse := by
      simp [bracketPairs, List.replicate_succ']
    rw [hlast, countPairs, ih]

theorem rank_of_name {base : Text} {n : Nat} (hname : d.name = base ++ bracketPairs n)
    (hbase : ¬ ['[', ']'] <:+ base) : d.rank = n := by
  rw [rank, hname, countPairs_append hbase]

theorem isArray_iff : d.isArray = true ↔ 0 < d.rank := by
  rw [isArray, List.isSuffixOf_iff_suffix, rank, countPairs_pos_iff, ← List.reverse_prefix]
  rfl

theorem length_brackets (d : TypeDescriptor) : d.brackets.length = 2 * min d.rank 1 := by
  rw [brackets]
  by_cases h : d.isArray = true
  · have := isArray_iff.1 h
    rw [if_pos h, Nat.min_eq_right this]
    rfl
  · have : ¬ 0 < d.rank := mt isArray_iff.2 h
    rw [if_neg h, Nat.eq_zero_of_not_pos this]
    rfl

theorem brackets_eq_iff : d.brackets = bracketPairs d.rank ↔ d.rank ≤ 1 := by
  constructor
  · intro h
    have := congrArg List.length h
    rw [length_brackets, length_bracketPairs] at this
    omega
  · intro h
    rw [brackets]
    by_cases ha : d.isArray = true
    · have := isArray_iff.1 ha
      have hone : d.rank = 1 := by omega
      rw [if_pos ha, hone]
      rfl
    · have : ¬ 0 < d.rank := mt isArray_iff.2 ha
      rw [if_neg ha, Nat.eq_zero_of_not_pos this]
      rfl

theorem length_brackets_le (d : TypeDescriptor) :
    d.brackets.length ≤ (bracketPairs d.rank).length := by
  rw [length_brackets, length_bracketPairs]
  omega

theorem shortName_eq_wholeText_iff : d.shortName = d.wholeText ↔ d.arguments = [] ∧ d.rank = 0 := by
  have hnone : bracketPairs d.rank = [] ↔ d.rank = 0 := by
    rw [← List.length_eq_zero_iff, length_bracketPairs]
    omega
  rw [wholeText_eq, List.self_eq_append_right, List.append_eq_nil_iff, argumentList_eq_nil_iff,
    List.map_eq_nil_iff, hnone]

theorem length_shortName_le (d : TypeDescriptor) : d.shortName.length ≤ d.wholeText.length := by
  rw [wholeText_eq]
  simp

theorem cell_of_keyword {word : Text} (h : d.keyword? = some word) (ctx : Context) :
    d.cell ctx = d.wholeText ↔ d.rank ≤ 1 ∧ d.arguments = [] := by
  have hshort : d.shortName = word := by rw [shortName, h, Option.getD_some]
  have hcell : d.cell ctx = word ++ ([] ++ d.brackets) := by
    rw [cell, h]
    rfl
  rw [hcell, wholeText_eq, hshort, List.append_cancel_left_eq,
    Text.append_eq_append_iff (Nat.zero_le _) (length_brackets_le d), brackets_eq_iff, eq_comm,
    argumentList_eq_nil_iff, List.map_eq_nil_iff, and_comm]

theorem cell_of_arguments (h : d.keyword? = none) (hg : d.isGeneric = true) (ctx : Context) :
    d.cell ctx = d.wholeText ↔
      d.rank ≤ 1 ∧ ∀ a ∈ d.arguments, a.arguments = [] ∧ a.rank = 0 := by
  have hshort : d.shortName = d.simpleName := by rw [shortName, h, Option.getD_none]
  have hcell : d.cell ctx = d.simpleName ++ ("‹" ++
      (Text.joinWith ", " (d.arguments.map shortName) ++ ("›" ++ d.brackets))) := by
    rw [cell, h]
    simp only [hg, if_true, List.append_assoc]
  have hlist : argumentList (d.arguments.map wholeText) =
      "‹" ++ (Text.joinWith ", " (d.arguments.map wholeText) ++ "›") := by
    rw [isGeneric, Bool.not_eq_true'] at hg
    rw [argumentList, List.isEmpty_map, hg]
    rfl
  have hwhole : d.wholeText = d.simpleName ++ ("‹" ++
      (Text.joinWith ", " (d.arguments.map wholeText) ++ ("›" ++ bracketPairs d.rank))) := by
    rw [wholeText_eq, hshort, hlist]
    simp only [List.append_assoc]
  have hnames : ∀ a ∈ d.arguments, a.shortName.length ≤ a.wholeText.length :=
    fun a _ => a.length_shortName_le
  have hbehind : ("›" ++ d.brackets : Text).length ≤ ("›" ++ bracketPairs d.rank : Text).length := by
    have := length_brackets_le d
    simp only [List.length_append]
    omega
  rw [hcell, hwhole, List.append_cancel_left_eq, List.append_cancel_left_eq,
    Text.append_eq_append_iff (Text.length_joinWith_le hnames _) hbehind,
    Text.joinWith_map_eq_iff hnames, List.append_cancel_left_eq, brackets_eq_iff, and_comm]
  simp only [shortName_eq_wholeText_iff]

/-- A cell shows the whole type when this has one dimension at most and arguments, if any, that are
plain names; the arguments of a keyword's type are not shown at all. -/
theorem cells_show_whole_types_iff (ctx : Context) (d : TypeDescriptor) :
    let link := "[" ++ d.simpleName ++ "](" ++ d.target ctx ++ ")"
    (d.keyword?.isSome = true → (d.cell ctx = d.wholeText ↔ d.rank ≤ 1 ∧ d.arguments = [])) ∧
    (d.keyword? = none → d.isGeneric = true → (d.cell ctx = d.wholeText ↔
      d.rank ≤ 1 ∧ ∀ a ∈ d.arguments, a.arguments = [] ∧ a.rank = 0)) ∧
    (d.keyword? = none → d.isGeneric = false →
      ∃ behind, d.cell ctx = link ++ behind ∧ (behind = bracketPairs d.rank ↔ d.rank ≤ 1)) := by
  intro link
  refine ⟨?_, fun h hg => cell_of_arguments h hg ctx, ?_⟩
  · intro h
    obtain ⟨word, hword⟩ := Option.isSome_iff_exists.1 h
    exact cell_of_keyword hword ctx
  · intro h hg
    refine ⟨d.brackets, ?_, brackets_eq_iff⟩
    rw [cell, h]
    simp only [hg, Bool.false_eq_true, if_false]
    rfl

def runtimeType (name : Text) : TypeDescriptor :=
  ⟨name, "System", none, []⟩

def listOf (argument : TypeDescriptor) : TypeDescriptor :=
  ⟨"List`1", "System.Collections.Generic", none, [argument]⟩

theorem cells_show_whole_types_iff_jagged :
    let ctx : Context := ⟨"Foo", ⟨.error, .singlePage⟩, .unknown, [], none⟩
    let jagged := runtimeType "Int32[][]"
    let arrays := listOf (runtimeType "Int32[]")
    let numbers := listOf (runtimeType "Int32")
    let items : TypeDescriptor := ⟨"Item[][]", "Foo", none, []⟩
    (jagged.wholeText = "int[][]" ∧ jagged.cell ctx ≠ jagged.wholeText) ∧
    (arrays.wholeText = "List‹int[]›" ∧ arrays.cell ctx ≠ arrays.wholeText) ∧
    ((listOf numbers).wholeText = "List‹List‹int››" ∧
      (listOf numbers).cell ctx ≠ (listOf numbers).wholeText) ∧
    (numbers.wholeText = "List‹int›" ∧ numbers.cell ctx = numbers.wholeText) ∧
    ∃ behind, items.cell ctx = "[Item](#item)" ++ behind ∧ behind ≠ "[][]" := by
  intro ctx jagged arrays numbers items
  have hlist (argument : TypeDescriptor) :=
    (cells_show_whole_types_iff ctx (listOf argument)).2.1 rfl rfl
  obtain ⟨hkeyword, -, -⟩ := cells_show_whole_types_iff ctx jagged
  obtain ⟨-, -, hlink⟩ := cells_show_whole_types_iff ctx items
  refine ⟨⟨rfl, ?_⟩, ⟨rfl, ?_⟩, ⟨rfl, ?_⟩, ⟨rfl, ?_⟩, ?_⟩
  · intro h
    have hrank : jagged.rank = 2 := @rank_of_name jagged "Int32" 2 rfl (by decide)
    have hone := ((hkeyword rfl).1 h).1
    omega
  · intro h
    have hplain := ((hlist _).1 h).2 _ List.mem_cons_self
    exact absurd hplain.2 (by decide)
  · intro h
    have hplain := ((hlist _).1 h).2 _ List.mem_cons_self
    cases hplain.1
  · refine (hlist _).2 ⟨by decide, ?_⟩
    intro a ha
    rw [List.mem_singleton.1 ha]
    exact ⟨rfl, rfl⟩
  · obtain ⟨behind, hcell, hiff⟩ := hlink rfl rfl
    refine ⟨behind, hcell, ?_⟩
    intro h
    exact absurd (hiff.1 h) (by decide)

end TypeDescriptor
end Docmark
