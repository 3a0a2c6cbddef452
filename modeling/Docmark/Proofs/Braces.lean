import Docmark.Proofs.TypeTexts

/-!
Which braces of a parameter's type reach the page: those in the last segments of the names that the
type comes apart into. A type that is spelled in full leaves none; one with more behind its list of
arguments can.
-/

namespace Docmark

def isBrace (c : Char) : Bool :=
  c == '{' || c == '}'

theorem isBrace_iff {c : Char} : isBrace c = true ↔ c = '{' ∨ c = '}' := by
  rw [isBrace, Bool.or_eq_true, beq_iff_eq, beq_iff_eq]

theorem isAlphanum_of_keywordOf? {name word : Text} (h : keywordOf? name = some word) :
    (∀ c ∈ Text.lowerAscii name, c.isAlphanum = true) ∧ ∀ c ∈ word, c.isAlphanum = true := by
  rw [keywordOf?, Option.map_eq_some_iff] at h
  obtain ⟨entry, hfind, rfl⟩ := h
  have hname : entry.1.toList = Text.lowerAscii name := by simpa using List.find?_some hfind
  have hkeywords : ∀ entry ∈ [("string", "string"), ("object", "object"), ("int32", "int"),
      ("int64", "long"), ("boolean", "bool"), ("decimal", "decimal"), ("void", "void"),
      ("double", "double"), ("byte", "byte")], entry.1.toList.all Char.isAlphanum = true ∧
        entry.2.toList.all Char.isAlphanum = true := by
    decide
  obtain ⟨hlower, hword⟩ := hkeywords entry (List.mem_of_find?_eq_some hfind)
  rw [← hname]
  exact ⟨List.all_eq_true.1 hlower, List.all_eq_true.1 hword⟩

theorem keywordOf?_of_valueKeyword? {name word : Text} (h : valueKeyword? name = some word) :
    keywordOf? name = some word := by
  rw [valueKeyword?, Option.bind_eq_some_iff] at h
  obtain ⟨found, hfound, hword⟩ := h
  rw [Option.ite_none_left_eq_some] at hword
  rw [hfound, hword.2]

def isAdded (c : Char) : Bool :=
  c.isAlphanum || c.toLower.isAlphanum || c ∈ [',', ' ', '?', '‹', '›', '@', '[', ']']

theorem isAdded_of_isBrace {c : Char} (h : isBrace c = true) : isAdded c = false := by
  rcases isBrace_iff.1 h with rfl | rfl <;> decide

theorem isAdded_eq_false_iff {c : Char} : isAdded c = false ↔ c.isAlphanum = false ∧
    c.toLower.isAlphanum = false ∧ c ∉ [',', ' ', '?', '‹', '›', '@', '[', ']'] := by
  simp only [isAdded, Bool.or_eq_false_iff, decide_eq_false_iff_not, and_assoc]

variable {c : Char}

theorem not_mem_of_isAdded (hc : isAdded c = false) {t : Text}
    (ht : t ⊆ [',', ' ', '?', '‹', '›', '@', '[', ']']) : c ∉ t :=
  fun hmem => (isAdded_eq_false_iff.1 hc).2.2 (ht hmem)

theorem mem_plainText_iff (hc : isAdded c = false) (assembly t : Text) :
    c ∈ plainText assembly t ↔ c ∈ lastSegment t := by
  rw [plainText_eq]
  cases hword : valueKeyword? (lastSegment t) with
  | none => rw [Option.getD_none]
  | some word =>
    obtain ⟨hout, hout', -⟩ := isAdded_eq_false_iff.1 hc
    obtain ⟨hname, hkeyword⟩ := isAlphanum_of_keywordOf? (keywordOf?_of_valueKeyword? hword)
    have hword' : c ∉ word := by
      intro hmem
      rw [hkeyword c hmem] at hout
      cases hout
    have hsegment : c ∉ lastSegment t := by
      intro hmem
      rw [hname c.toLower (List.mem_map_of_mem hmem)] at hout'
      cases hout'
    exact iff_of_false hword' hsegment

theorem mem_genericText_iff (hc : isAdded c = false) (name : Text) (texts : List Text) :
    c ∈ genericText name texts ↔ c ∈ lastSegment name ∨ ∃ t ∈ texts, c ∈ t := by
  have hcomma : c ∉ (", " : Text) := not_mem_of_isAdded hc (by decide)
  have hmark : c ∉ ("?" : Text) := not_mem_of_isAdded hc (by decide)
  have hopen : c ∉ ("‹" : Text) := not_mem_of_isAdded hc (by decide)
  have hclose : c ∉ ("›" : Text) := not_mem_of_isAdded hc (by decide)
  have hnullable : c ∉ lastSegment "System.Nullable" := by
    have hword : ∀ d ∈ lastSegment "System.Nullable", d.isAlphanum = true :=
      Text.forall_mem_of_all (by decide)
    intro hmem
    have hout := (isAdded_eq_false_iff.1 hc).1
    rw [hword c hmem] at hout
    cases hout
  rw [genericText]
  split
  · next h =>
    rw [h.1, List.mem_append, Text.mem_joinWith hcomma]
    simp only [hmark, hnullable, or_false, false_or]
  · simp only [List.mem_append, Text.mem_joinWith hcomma, hopen, hclose, or_false]

namespace TypeForm

def ownName (whole : Text) : TypeForm → Text
  | .reference _ | .array _ => []
  | .generic name _ => lastSegment name
  | .plain => lastSegment whole

theorem mem_textWith_iff (hc : isAdded c = false) (assembly : Text) (read : Text → Text) (whole : Text)
    (form : TypeForm) :
    c ∈ form.textWith read (plainText assembly whole) ↔
      c ∈ form.ownName whole ∨ ∃ part ∈ form.parts, c ∈ read part := by
  have hreference : c ∉ ("@" : Text) := not_mem_of_isAdded hc (by decide)
  have harray : c ∉ ("[]" : Text) := not_mem_of_isAdded hc (by decide)
  cases form with
  | reference target =>
    rw [textWith, ownName, parts, List.mem_append]
    simp only [hreference, or_false, List.not_mem_nil, false_or, List.mem_singleton, exists_eq_left]
  | array element =>
    rw [textWith, ownName, parts, List.mem_append]
    simp only [harray, or_false, List.not_mem_nil, false_or, List.mem_singleton, exists_eq_left]
  | generic name arguments =>
    rw [textWith, ownName, parts, mem_genericText_iff hc]
    simp only [List.mem_map, exists_exists_and_eq_and]
  | plain =>
    rw [textWith, ownName, parts, mem_plainText_iff hc]
    simp only [List.not_mem_nil, false_and, exists_false, or_false]

/-- The texts that are read as types on the way through a type, itself among them. -/
inductive Within : Text → Text → Prop
  | whole (raw : Text) : Within raw raw
  | inside {raw part inner : Text} : part ∈ (of (Text.trim raw)).parts → Within part inner →
    Within raw inner

end TypeForm

theorem mem_typeText_step (hc : isAdded c = false) (assembly raw : Text) :
    c ∈ typeText assembly raw ↔ c ∈ (TypeForm.of (Text.trim raw)).ownName (Text.trim raw) ∨
      ∃ part ∈ (TypeForm.of (Text.trim raw)).parts, c ∈ typeText assembly part := by
  rw [typeText_eq, TypeForm.mem_textWith_iff hc]

theorem mem_typeText_iff (hc : isBrace c = true) (assembly raw : Text) :
    c ∈ typeText assembly raw ↔ ∃ inner, TypeForm.Within raw inner ∧
      c ∈ (TypeForm.of (Text.trim inner)).ownName (Text.trim inner) := by
  have hplain := isAdded_of_isBrace hc
  constructor
  · -- Parts are shorter, which is what the induction is on.
    induction hn : raw.length using Nat.strong_induction_on generalizing raw with
    | _ n ih =>
      intro h
      rcases (mem_typeText_step hplain assembly raw).1 h with hown | ⟨part, hpart, hin⟩
      · exact ⟨raw, .whole raw, hown⟩
      · obtain ⟨inner, hwithin, hmem⟩ :=
          ih part.length (hn ▸ TypeForm.length_of_mem_parts hpart) part rfl hin
        exact ⟨inner, .inside hpart hwithin, hmem⟩
  · rintro ⟨inner, hwithin, hmem⟩
    induction hwithin with
    | whole raw => exact (mem_typeText_step hplain assembly raw).2 (.inl hmem)
    | inside hpart _ ih => exact (mem_typeText_step hplain assembly _).2 (.inr ⟨_, hpart, ih hmem⟩)

theorem TypeName.not_mem_lastSegment (name : TypeName) (hc : isBrace c = true) :
    c ∉ lastSegment name.text := by
  intro hmem
  refine name.not_mem ?_ (Text.mem_of_mem_afterLast hmem)
  rcases isBrace_iff.1 hc with rfl | rfl <;> rfl

theorem TypeExpr.not_mem_text (t : TypeExpr) (hc : isBrace c = true) : c ∉ t.text := by
  have hplain := isAdded_of_isBrace hc
  induction t with
  | named name =>
    rw [text_named name [], mem_plainText_iff hplain]
    exact name.not_mem_lastSegment hc
  | generic name first others hfirst hothers =>
    rw [text_generic, mem_genericText_iff hplain, not_or]
    refine ⟨name.not_mem_lastSegment hc, ?_⟩
    rintro ⟨s, hs, hmem⟩
    rcases List.mem_cons.1 hs with rfl | hs
    · exact hfirst hmem
    · obtain ⟨t, ht, rfl⟩ := List.mem_map.1 hs
      exact hothers t ht hmem
  | array element dimensions ih =>
    rw [text, List.mem_append, not_or]
    exact ⟨ih, not_mem_of_isAdded hplain (by decide)⟩
  | reference target ih =>
    rw [text, List.mem_append, not_or]
    exact ⟨ih, not_mem_of_isAdded hplain (by decide)⟩

theorem mem_typeText_of_behind {behind : Text} {last : Char} (hdot : '.' ∉ behind ++ [last])
    (hlast : last ∉ ['@', ']', '}']) (hblank : isBlank last = false) (assembly t : Text) :
    '}' ∈ typeText assembly (t ++ '}' :: (behind ++ [last])) := by
  -- Behind a list of arguments, text without a dot of its own, such as the sign of pointers, keeps
  -- the type from being read as a generic one.
  have hend (s : Text) : (s ++ '}' :: (behind ++ [last])).getLast? = some last := by
    rw [← List.cons_append, ← List.append_assoc, List.getLast?_concat]
  have htrim : Text.trim (t ++ '}' :: (behind ++ [last])) =
      Text.trimStart isBlank t ++ '}' :: (behind ++ [last]) := by
    refine Text.trim_append rfl ?_
    intro c hc
    rw [← List.nil_append ('}' :: _), hend] at hc
    rwa [← Option.mem_some_iff.1 hc]
  have hform : TypeForm.of (Text.trimStart isBlank t ++ '}' :: (behind ++ [last])) = .plain := by
    simp only [List.mem_cons, List.not_mem_nil, or_false, not_or] at hlast
    apply TypeForm.of_plain
    · rw [hend]
      simpa using hlast.1
    · rw [hend]
      simpa using hlast.2.1
    · rw [hend]
      simpa using Or.inr hlast.2.2
  have hsegment : '}' ∈ lastSegment (Text.trimStart isBlank t ++ '}' :: (behind ++ [last])) := by
    rw [lastSegment, Text.afterLast_append _ (by simpa using hdot)]
    exact List.mem_append_right _ List.mem_cons_self
  rw [mem_typeText_step rfl, htrim, hform]
  exact .inl hsegment

section

variable (a x b y : TypeName)

def tornArgument : Text :=
  x.text ++ "\x7d." ++ b.text ++ "\x7b" ++ y.text

theorem mem_tornArgument : ∀ c ∈ tornArgument x b y, isTypeNameChar c = true ∨ c ∈ ['{', '}'] := by
  simp only [tornArgument, List.forall_mem_append]
  exact ⟨⟨⟨⟨fun c hc => .inl (x.plain c hc), Text.forall_mem_of_all (by decide)⟩,
    fun c hc => .inl (b.plain c hc)⟩, Text.forall_mem_of_all (by decide)⟩,
    fun c hc => .inl (y.plain c hc)⟩

theorem not_mem_tornArgument (hc : isTypeNameChar c = false) (hbrace : c ∉ ['{', '}']) :
    c ∉ tornArgument x b y := by
  intro hmem
  rcases mem_tornArgument x b y c hmem with h | h
  · rw [hc] at h
    cases h
  · exact hbrace h

theorem not_isBlank_tornArgument : ∀ c ∈ tornArgument x b y, isBlank c = false := by
  have hbraces : ∀ c ∈ ['{', '}'], isBlank c = false := Text.forall_mem_of_all (by decide)
  intro c hc
  rcases mem_tornArgument x b y c hc with h | h
  · exact (isTypeNameChar_iff.1 h).1
  · exact hbraces c h

theorem split_tornArgument : Params.split (tornArgument x b y) = [tornArgument x b y] := by
  have hbrace : '}' ∈ tornArgument x b y := by simp [tornArgument]
  have hshown : ¬ Text.allBlank (tornArgument x b y) = true := by
    intro h
    exact absurd (List.all_eq_true.1 h '}' hbrace) (by decide)
  have hcomma : ',' ∉ tornArgument x b y := not_mem_tornArgument x b y rfl (by decide)
  rw [Params.split, if_neg hshown, Params.splitFrom_of_sheltered (Params.sheltered_of_not_mem hcomma 0)]

theorem of_tornArgument : TypeForm.of (tornArgument x b y) = .plain := by
  have hlast : (tornArgument x b y).getLast? = y.text.getLast? := by
    rw [tornArgument, List.getLast?_append, List.getLast?_eq_some_getLast y.ne_nil]
    rfl
  apply TypeForm.of_plain
  · exact fun h => not_mem_tornArgument x b y rfl (by decide) (List.mem_of_getLast? h)
  · exact fun h => not_mem_tornArgument x b y rfl (by decide) (List.mem_of_getLast? h)
  · rw [hlast]
    exact .inr fun h => y.not_mem rfl (List.mem_of_getLast? h)

theorem mem_lastSegment_tornArgument_iff : '{' ∈ lastSegment (tornArgument x b y) ↔ '.' ∉ y.text := by
  have hmember : lastSegment (tornArgument x b y) = lastSegment (b.text ++ '{' :: y.text) := by
    have htorn : tornArgument x b y = (x.text ++ ['}']) ++ '.' :: (b.text ++ '{' :: y.text) := by
      simp [tornArgument]
    rw [htorn]
    exact Text.afterLast_behind '.' _ _
  rw [hmember]
  by_cases hdot : '.' ∈ y.text
  · obtain ⟨front, rest, hy⟩ := List.append_of_mem hdot
    have hlast : lastSegment (b.text ++ '{' :: y.text) = lastSegment rest := by
      rw [hy, ← List.cons_append, ← List.append_assoc]
      exact Text.afterLast_behind '.' _ _
    have hrest : '{' ∉ lastSegment rest := by
      intro hmem
      refine y.not_mem (c := '{') rfl ?_
      rw [hy]
      exact List.mem_append_right _ (List.mem_cons_of_mem _ (Text.mem_of_mem_afterLast hmem))
    rw [hlast]
    exact iff_of_false hrest (not_not_intro hdot)
  · have hlast : lastSegment (b.text ++ '{' :: y.text) = lastSegment b.text ++ '{' :: y.text :=
      Text.afterLast_append _ (by simpa using hdot)
    rw [hlast]
    exact iff_of_true (List.mem_append_right _ List.mem_cons_self) hdot

/-- A member of a generic type that is generic itself, `A{X}.B{Y}`, is taken for a generic type with
the one argument `X}.B{Y`. -/
theorem mem_typeText_of_member (assembly : Text) :
    '{' ∈ typeText assembly (a.text ++ "\x7b" ++ tornArgument x b y ++ "\x7d") ↔ '.' ∉ y.text := by
  have hblank : ∀ c ∈ a.text ++ "\x7b" ++ tornArgument x b y ++ "\x7d", isBlank c = false := by
    simp only [List.forall_mem_append]
    exact ⟨⟨⟨a.not_isBlank, Text.forall_mem_of_all (by decide)⟩, not_isBlank_tornArgument x b y⟩,
      Text.forall_mem_of_all (by decide)⟩
  have hinside : '{' ∈ typeText assembly (tornArgument x b y) ↔ '.' ∉ y.text := by
    rw [mem_typeText_step rfl, Text.trim_of_not_blank (not_isBlank_tornArgument x b y), of_tornArgument,
      TypeForm.ownName, TypeForm.parts, mem_lastSegment_tornArgument_iff]
    simp only [List.not_mem_nil, false_and, exists_false, or_false]
  rw [mem_typeText_step rfl, Text.trim_of_not_blank hblank, TypeForm.of_generic (a.not_mem rfl),
    TypeForm.ownName, TypeForm.parts, split_tornArgument]
  simp only [List.mem_singleton, exists_eq_left, a.not_mem_lastSegment (c := '{') rfl, false_or, hinside]

end

/-- The braces on the page are those in the names that a type comes apart into. A spelled type leaves
none. What stands behind a list of arguments leaves the brace in front of it, and a generic member of a
generic type leaves one unless its own argument has a dot. -/
theorem braces_reach_page_iff (assembly : Text) :
    (∀ raw c, isBrace c = true → (c ∈ typeText assembly raw ↔ ∃ inner, TypeForm.Within raw inner ∧
      c ∈ (TypeForm.of (Text.trim inner)).ownName (Text.trim inner))) ∧
    (∀ (t : TypeExpr) c, isBrace c = true → c ∉ typeText assembly t.spelling) ∧
    (∀ (t behind : Text) (last : Char), '.' ∉ behind ++ [last] → last ∉ ['@', ']', '}'] →
      isBlank last = false → '}' ∈ typeText assembly (t ++ '}' :: (behind ++ [last]))) ∧
    ∀ a x b y : TypeName,
      '{' ∈ typeText assembly (a.text ++ "\x7b" ++ tornArgument x b y ++ "\x7d") ↔ '.' ∉ y.text := by
  refine ⟨fun raw c hc => mem_typeText_iff hc assembly raw, ?_, ?_, ?_⟩
  · intro t c hc
    rw [t.typeText_spelling]
    exact t.not_mem_text hc
  · intro t behind last hdot hlast hblank
    exact mem_typeText_of_behind hdot hlast hblank assembly t
  · intro a x b y
    exact mem_typeText_of_member a x b y assembly

theorem braces_reach_page_iff_pointer :
    let raw : Text := "A\x7bX\x7d*"
    typeText "A" raw = raw ∧ isBrace '}' = true ∧ '}' ∈ typeText "A" raw ∧
      (∃ inner, TypeForm.Within raw inner ∧
        '}' ∈ (TypeForm.of (Text.trim inner)).ownName (Text.trim inner)) ∧
      '}' ∉ typeText "A" nullableArray.spelling := by
  intro raw
  obtain ⟨hiff, hspelled, hbehind, -⟩ := braces_reach_page_iff "A"
  have hmem : '}' ∈ typeText "A" raw := hbehind "A\x7bX" [] '*' (by decide) (by decide) (by decide)
  exact ⟨by decide +kernel, rfl, hmem, (hiff raw '}' rfl).1 hmem, hspelled nullableArray '}' rfl⟩

end Docmark
