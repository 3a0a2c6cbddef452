import Docmark.Page.Link
import Docmark.Proofs.Casing
import Docmark.Proofs.TypeTexts

/-!
Which types are shown by their keyword: in parameter lists every type of the right name, in the cells
that metadata fill those of the runtime's own namespace.
-/

namespace Docmark

def isWordChar (c : Char) : Bool :=
  isAlphanumeric c || c == '_'

theorem isTypeNameChar_of_isWordChar {c : Char} (h : isWordChar c = true) : isTypeNameChar c = true := by
  have hsigns : ∀ c ∈ ['{', '}', '[', ']', '(', ')', ',', '@'], isWordChar c = false :=
    Text.forall_mem_of_all (by decide)
  rw [isTypeNameChar_iff]
  constructor
  · rw [isWordChar, Bool.or_eq_true, beq_iff_eq] at h
    rcases h with h | rfl
    · exact not_isBlank_of_isAlphanumeric h
    · rfl
  · intro hmem
    rw [hsigns c hmem] at h
    cases h

theorem not_mem_of_isWordChar {t : Text} (h : ∀ c ∈ t, isWordChar c = true) {c : Char}
    (hc : isWordChar c = false) : c ∉ t := by
  intro hmem
  rw [h c hmem] at hc
  cases hc

namespace TypeDescriptor

variable {d : TypeDescriptor}

theorem simpleName_of_plain (ha : d.isArray = false) (hm : '\x60' ∉ d.name) :
    d.simpleName = d.name := by
  have hpairs : dropPairs d.name.reverse = d.name.reverse := by
    unfold dropPairs
    split
    · next rest hrest =>
      rw [isArray, List.isSuffixOf, hrest] at ha
      cases ha
    · rfl
  rw [simpleName, hpairs, List.reverse_reverse, Text.beforeFirst_of_not_mem hm]

theorem simpleName_eq (h : ∀ c ∈ d.name, isWordChar c = true) : d.simpleName = d.name := by
  have hbracket : ']' ∉ d.name := not_mem_of_isWordChar h (by decide)
  have harray : ¬ d.isArray = true := by
    rw [isArray, List.isSuffixOf_iff_suffix]
    intro hend
    apply hbracket
    exact hend.subset (by decide)
  apply simpleName_of_plain
  · exact Bool.eq_false_of_not_eq_true harray
  · exact not_mem_of_isWordChar h (by decide)

theorem keyword?_eq (h : ∀ c ∈ d.name, isWordChar c = true) :
    d.keyword? = if d.namespaceName = "System" then keywordOf? d.name else none := by
  rw [keyword?, simpleName_eq h]

end TypeDescriptor

theorem typeText_qualified {namespaceName name : Text}
    (hnamespace : ∀ c ∈ namespaceName, c = '.' ∨ isWordChar c = true)
    (hname : ∀ c ∈ name, isWordChar c = true) (assembly : Text) :
    typeText assembly (namespaceName ++ "." ++ name) = (valueKeyword? name).getD name := by
  have hplain : ∀ c ∈ namespaceName ++ "." ++ name, isTypeNameChar c = true := by
    simp only [List.forall_mem_append]
    refine ⟨⟨?_, Text.forall_mem_of_all (by decide)⟩, fun c hc => isTypeNameChar_of_isWordChar (hname c hc)⟩
    intro c hc
    rcases hnamespace c hc with rfl | h
    · rfl
    · exact isTypeNameChar_of_isWordChar h
  have hsegment : lastSegment (namespaceName ++ "." ++ name) = name := by
    have hdot : '.' ∉ name := not_mem_of_isWordChar hname (by decide)
    rw [List.append_assoc]
    exact (Text.afterLast_behind '.' namespaceName name).trans
      (Text.afterLast_of_not_mem hdot)
  let type : TypeName := ⟨namespaceName ++ "." ++ name, by simp, hplain⟩
  have htext := (TypeExpr.named type).typeText_spelling assembly
  rwa [TypeExpr.spelling, TypeExpr.text, hsegment] at htext

theorem valueKeyword?_eq_some_iff {name word : Text} :
    valueKeyword? name = some word ↔
      keywordOf? name = some word ∧ word ≠ "string" ∧ word ≠ "object" := by
  rw [valueKeyword?, Option.bind_eq_some_iff]
  constructor
  · rintro ⟨found, hfound, hword⟩
    rw [Option.ite_none_left_eq_some, not_or] at hword
    obtain ⟨hne, hsame⟩ := hword
    cases hsame
    exact ⟨hfound, hne⟩
  · rintro ⟨hfound, hne⟩
    exact ⟨word, hfound, if_neg (not_or.2 hne)⟩

/-- A parameter list shows the keyword that belongs to the name, whatever the namespace; a cell shows
it in the runtime's namespace only. So both agree just there, and on names that no keyword belongs
to. -/
theorem signature_keywords_agree_iff {d : TypeDescriptor}
    (hnamespace : ∀ c ∈ d.namespaceName, c = '.' ∨ isWordChar c = true)
    (hname : ∀ c ∈ d.name, isWordChar c = true) (assembly : Text) :
    let shown := typeText assembly (d.namespaceName ++ "." ++ d.name)
    shown = (valueKeyword? d.name).getD d.name ∧
    (d.namespaceName ≠ "System" → d.shortName = d.name) ∧
    (((∃ word, keywordOf? d.name = some word ∧ word ≠ "string" ∧ word ≠ "object" ∧ shown = word) ↔
        ∃ word, d.keyword? = some word ∧ word ≠ "string" ∧ word ≠ "object") ↔
      d.namespaceName = "System" ∨ valueKeyword? d.name = none) := by
  intro shown
  have hshown : shown = (valueKeyword? d.name).getD d.name :=
    typeText_qualified hnamespace hname assembly
  have hlist : (∃ word, keywordOf? d.name = some word ∧ word ≠ "string" ∧ word ≠ "object" ∧
      shown = word) ↔ ∃ word, valueKeyword? d.name = some word := by
    constructor
    · rintro ⟨word, hword, hstring, hobject, -⟩
      exact ⟨word, valueKeyword?_eq_some_iff.2 ⟨hword, hstring, hobject⟩⟩
    · rintro ⟨word, hword⟩
      obtain ⟨hfound, hstring, hobject⟩ := valueKeyword?_eq_some_iff.1 hword
      exact ⟨word, hfound, hstring, hobject, by rw [hshown, hword, Option.getD_some]⟩
  refine ⟨hshown, ?_, ?_⟩
  · intro hns
    rw [TypeDescriptor.shortName, TypeDescriptor.keyword?_eq hname, if_neg hns, Option.getD_none,
      TypeDescriptor.simpleName_eq hname]
  · rw [hlist, TypeDescriptor.keyword?_eq hname]
    by_cases hns : d.namespaceName = "System"
    · rw [if_pos hns]
      simp only [valueKeyword?_eq_some_iff, hns, true_or]
    · rw [if_neg hns]
      cases hword : valueKeyword? d.name with
      | none => simp
      | some word =>
        refine iff_of_false ?_ (not_or.2 ⟨hns, Option.some_ne_none word⟩)
        intro hagree
        obtain ⟨_, hnone, -⟩ := hagree.1 ⟨word, rfl⟩
        cases hnone

def ownInt32 : TypeDescriptor :=
  ⟨"Int32", "Foo.Bar", none, []⟩

theorem signature_keywords_agree_iff_own :
    let d := ownInt32
    (∀ c ∈ d.namespaceName, c = '.' ∨ isWordChar c = true) ∧ (∀ c ∈ d.name, isWordChar c = true) ∧
    typeText "Foo" "Foo.Bar.Int32" = "int" ∧ d.shortName = "Int32" ∧
    ¬ ((∃ word, keywordOf? d.name = some word ∧ word ≠ "string" ∧ word ≠ "object" ∧
          typeText "Foo" "Foo.Bar.Int32" = word) ↔
        ∃ word, d.keyword? = some word ∧ word ≠ "string" ∧ word ≠ "object") := by
  intro d
  have hnamespace : ∀ c ∈ d.namespaceName, c = '.' ∨ isWordChar c = true :=
    Text.forall_mem_of_all (by decide)
  have hname : ∀ c ∈ d.name, isWordChar c = true := Text.forall_mem_of_all (by decide)
  obtain ⟨hshown, hcell, hagree⟩ := signature_keywords_agree_iff hnamespace hname "Foo"
  have hkeyword : valueKeyword? d.name = some "int" := by decide
  have hns : d.namespaceName ≠ "System" := by decide
  refine ⟨hnamespace, hname, ?_, hcell hns, ?_⟩
  · rw [hkeyword] at hshown
    exact hshown
  · intro h
    rcases hagree.1 h with h | h
    · exact hns h
    · rw [hkeyword] at h
      cases h

end Docmark
