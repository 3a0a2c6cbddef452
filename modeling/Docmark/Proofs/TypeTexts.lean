import Docmark.Member.TypeText
import Docmark.Proofs.ParameterLists

namespace Docmark

def isTypeNameChar (c : Char) : Bool :=
  !(isBlank c || c ∈ ['{', '}', '[', ']', '(', ')', ',', '@'])

structure TypeName where
  text : Text
  ne_nil : text ≠ []
  plain : ∀ c ∈ text, isTypeNameChar c = true

structure Dimensions where
  text : Text
  plain : ∀ c ∈ text, c.isDigit = true ∨ c = ',' ∨ c = ':'

inductive TypeExpr
  | named (name : TypeName)
  | generic (name : TypeName) (first : TypeExpr) (others : List TypeExpr)
  | array (element : TypeExpr) (dimensions : Dimensions)
  | reference (target : TypeExpr)

def valueKeyword? (name : Text) : Option Text :=
  (keywordOf? name).bind fun word => if word = "string" ∨ word = "object" then none else some word

namespace TypeExpr

@[elab_as_elim, induction_eliminator]
theorem induction {motive : TypeExpr → Prop} (named : ∀ name, motive (.named name))
    (generic : ∀ name first others, motive first → (∀ t ∈ others, motive t) →
      motive (.generic name first others))
    (array : ∀ element dimensions, motive element → motive (.array element dimensions))
    (reference : ∀ target, motive target → motive (.reference target)) (t : TypeExpr) : motive t := by
  apply @TypeExpr.rec motive (fun types => ∀ t ∈ types, motive t)
  · exact named
  · exact generic
  · exact array
  · exact reference
  · intro t ht
    exact absurd ht List.not_mem_nil
  · intro t types ht htypes u hu
    rcases List.mem_cons.1 hu with rfl | hu
    · exact ht
    · exact htypes u hu

mutual

def spelling : TypeExpr → Text
  | .named name => name.text
  | .generic name first others =>
    name.text ++ "\x7b" ++ Text.joinWith "," (spelling first :: spellingAll others) ++ "\x7d"
  | .array element dimensions => spelling element ++ "[" ++ dimensions.text ++ "]"
  | .reference target => spelling target ++ "@"

def spellingAll : List TypeExpr → List Text
  | [] => []
  | t :: types => spelling t :: spellingAll types

end

mutual

def text : TypeExpr → Text
  | .named name => (valueKeyword? (lastSegment name.text)).getD (lastSegment name.text)
  | .generic name first others =>
    if name.text = "System.Nullable" ∧ others.isEmpty then text first ++ "?"
    else lastSegment name.text ++ "‹" ++ Text.joinWith ", " (text first :: textAll others) ++ "›"
  | .array element _ => text element ++ "[]"
  | .reference target => text target ++ "@"

def textAll : List TypeExpr → List Text
  | [] => []
  | t :: types => text t :: textAll types

end

theorem spellingAll_eq_map (types : List TypeExpr) : spellingAll types = types.map spelling := by
  induction types with
  | nil => rfl
  | cons t types ih => rw [spellingAll, ih, List.map_cons]

theorem textAll_eq_map (types : List TypeExpr) : textAll types = types.map text := by
  induction types with
  | nil => rfl
  | cons t types ih => rw [textAll, ih, List.map_cons]

theorem forall_mem_cons_map {p : Text → Prop} {f : TypeExpr → Text} {first : TypeExpr}
    {others : List TypeExpr} (hfirst : p (f first)) (hothers : ∀ t ∈ others, p (f t)) :
    ∀ s ∈ f first :: others.map f, p s := by
  intro s hs
  rcases List.mem_cons.1 hs with rfl | hs
  · exact hfirst
  · obtain ⟨t, ht, rfl⟩ := List.mem_map.1 hs
    exact hothers t ht

end TypeExpr

theorem isTypeNameChar_iff {c : Char} :
    isTypeNameChar c = true ↔
      isBlank c = false ∧ c ∉ ['{', '}', '[', ']', '(', ')', ',', '@'] := by
  simp only [isTypeNameChar, Bool.not_eq_true', Bool.or_eq_false_iff, decide_eq_false_iff_not]

theorem TypeName.not_mem (name : TypeName) {c : Char} (hc : isTypeNameChar c = false) :
    c ∉ name.text := by
  intro hmem
  rw [name.plain c hmem] at hc
  cases hc

theorem TypeName.not_isBlank (name : TypeName) : ∀ c ∈ name.text, isBlank c = false :=
  fun c hc => (isTypeNameChar_iff.1 (name.plain c hc)).1

theorem isFlat_of_isTypeNameChar {c : Char} (h : isTypeNameChar c = true) (least : Nat) :
    Params.IsFlat least c := by
  have hplain := (isTypeNameChar_iff.1 h).2
  simp only [List.mem_cons, List.not_mem_nil, or_false, not_or] at hplain
  obtain ⟨ho, hc, hso, hsc, hpo, hpc, hcomma, -⟩ := hplain
  refine ⟨?_, fun h => absurd h hcomma⟩
  intro depth
  rw [Params.depthAfter, if_neg (by simp [ho, hso, hpo]), if_neg (by simp [hc, hsc, hpc])]

theorem isTypeNameChar_of_isDigit {c : Char} (h : c.isDigit = true) : isTypeNameChar c = true := by
  have hdigits : ∀ n < 58, 48 ≤ n → isTypeNameChar (Char.ofNat n) = true := by decide
  rw [Char.isDigit, Bool.and_eq_true, decide_eq_true_eq, decide_eq_true_eq] at h
  rw [← Char.ofNat_toNat c]
  exact hdigits c.toNat (Nat.lt_succ_of_le h.2) h.1

theorem Dimensions.mem_cases (dimensions : Dimensions) {c : Char} (hc : c ∈ dimensions.text) :
    isTypeNameChar c = true ∨ c = ',' := by
  rcases dimensions.plain c hc with hd | rfl | rfl
  · exact .inl (isTypeNameChar_of_isDigit hd)
  · exact .inr rfl
  · exact .inl rfl

theorem Dimensions.not_mem (dimensions : Dimensions) {c : Char} (hc : isTypeNameChar c = false)
    (hcomma : c ≠ ',') : c ∉ dimensions.text := by
  intro hmem
  rcases dimensions.mem_cases hmem with h | rfl
  · rw [hc] at h
    cases h
  · exact hcomma rfl

namespace TypeExpr

theorem nested_spelling (t : TypeExpr) : Params.Nested 0 t.spelling := by
  induction t with
  | named name =>
    exact Params.nested_of_flat fun c hc => isFlat_of_isTypeNameChar (name.plain c hc) 0
  | generic name first others hfirst hothers =>
    have hname : Params.Nested 0 name.text :=
      Params.nested_of_flat fun c hc => isFlat_of_isTypeNameChar (name.plain c hc) 0
    have harguments := Params.nested_joinWith
      (forall_mem_cons_map (hfirst.mono (Nat.zero_le 1)) fun t ht => (hothers t ht).mono (Nat.zero_le 1))
    have hlist : Params.Nested 0
        ('{' :: (Text.joinWith "," (first.spelling :: others.map spelling) ++ ['}'])) :=
      harguments.bracketed (fun _ => rfl) (fun _ => rfl)
    rw [spelling, spellingAll_eq_map]
    simpa using hname.append hlist
  | array element dimensions ih =>
    have hdimensions : Params.Nested 1 dimensions.text := by
      refine Params.nested_of_flat ?_
      intro c hc
      rcases dimensions.mem_cases hc with h | rfl
      · exact isFlat_of_isTypeNameChar h 1
      · exact ⟨fun _ => rfl, fun _ => Nat.one_pos⟩
    have hlist : Params.Nested 0 ('[' :: (dimensions.text ++ [']'])) :=
      hdimensions.bracketed (fun _ => rfl) (fun _ => rfl)
    rw [spelling]
    simpa using ih.append hlist
  | reference target ih =>
    have hsign : Params.Nested 0 "@" := by
      apply Params.nested_of_flat
      rintro c hc
      rw [List.mem_singleton.1 hc]
      exact ⟨fun _ => rfl, by decide⟩
    exact ih.append hsign

theorem mem_spelling_cases (t : TypeExpr) :
    ∀ c ∈ t.spelling, isTypeNameChar c = true ∨ c ∈ ['{', '}', '[', ']', ',', '@'] := by
  have hsign {s : Text} (hs : s ⊆ ['{', '}', '[', ']', ',', '@']) :
      ∀ c ∈ s, isTypeNameChar c = true ∨ c ∈ ['{', '}', '[', ']', ',', '@'] :=
    fun c hc => .inr (hs hc)
  induction t with
  | named name => exact fun c hc => .inl (name.plain c hc)
  | generic name first others hfirst hothers =>
    have harguments : ∀ c ∈ Text.joinWith "," (first.spelling :: others.map spelling),
        isTypeNameChar c = true ∨ c ∈ ['{', '}', '[', ']', ',', '@'] := by
      have hpieces : ∀ s ∈ first.spelling :: others.map spelling,
          ∀ c ∈ s, isTypeNameChar c = true ∨ c ∈ ['{', '}', '[', ']', ',', '@'] :=
        forall_mem_cons_map hfirst hothers
      intro c hc
      by_cases hcomma : c = ','
      · rw [hcomma]
        exact .inr (by decide)
      · obtain ⟨s, hs, hcs⟩ := (Text.mem_joinWith (by simpa using hcomma)).1 hc
        exact hpieces s hs c hcs
    rw [spelling, spellingAll_eq_map]
    simp only [List.forall_mem_append]
    exact ⟨⟨⟨fun c hc => .inl (name.plain c hc), hsign (by decide)⟩, harguments⟩, hsign (by decide)⟩
  | array element dimensions ih =>
    rw [spelling]
    simp only [List.forall_mem_append]
    refine ⟨⟨⟨ih, hsign (by decide)⟩, ?_⟩, hsign (by decide)⟩
    intro c hc
    rcases dimensions.mem_cases hc with h | rfl
    · exact .inl h
    · exact .inr (by decide)
  | reference target ih =>
    rw [spelling, List.forall_mem_append]
    exact ⟨ih, hsign (by decide)⟩

theorem not_isBlank_of_mem_spelling (t : TypeExpr) : ∀ c ∈ t.spelling, isBlank c = false := by
  have hsigns : ∀ c ∈ ['{', '}', '[', ']', ',', '@'], isBlank c = false :=
    Text.forall_mem_of_all (by decide)
  intro c hc
  rcases t.mem_spelling_cases c hc with h | h
  · exact (isTypeNameChar_iff.1 h).1
  · exact hsigns c h

theorem spelling_ne_nil (t : TypeExpr) : t.spelling ≠ [] := by
  cases t with
  | named name => exact name.ne_nil
  | generic | array | reference => simp [spelling]

theorem trim_spelling (t : TypeExpr) : Text.trim t.spelling = t.spelling :=
  Text.trim_of_not_blank t.not_isBlank_of_mem_spelling

theorem split_arguments (first : TypeExpr) (others : List TypeExpr) :
    Params.split (Text.joinWith "," (first.spelling :: others.map spelling)) =
      first.spelling :: others.map spelling := by
  have hshown : ¬ Text.allBlank (Text.joinWith "," (first.spelling :: others.map spelling)) = true := by
    intro hblank
    obtain ⟨c, s, hc⟩ := List.exists_cons_of_ne_nil first.spelling_ne_nil
    have hmem : c ∈ Text.joinWith "," (first.spelling :: others.map spelling) := by
      cases others with
      | nil => simp [hc]
      | cons t others => simp [hc]
    have := List.all_eq_true.1 hblank c hmem
    rw [first.not_isBlank_of_mem_spelling c (hc ▸ List.mem_cons_self)] at this
    cases this
  rw [Params.split, if_neg hshown]
  apply Params.splitFrom_joinWith (List.cons_ne_nil _ _)
  apply Params.cutFrom_of_nested
  exact forall_mem_cons_map first.nested_spelling fun t _ => t.nested_spelling

end TypeExpr

namespace TypeForm

def parts : TypeForm → List Text
  | .reference target => [target]
  | .array element => [element]
  | .generic _ arguments => Params.split arguments
  | .plain => []

def textWith (read : Text → Text) (whole : Text) : TypeForm → Text
  | .reference target => read target ++ "@"
  | .array element => read element ++ "[]"
  | .generic name arguments => genericText name ((Params.split arguments).map read)
  | .plain => whole

theorem length_of_mem_parts {raw part : Text} (h : part ∈ (of (Text.trim raw)).parts) :
    part.length < raw.length := by
  refine Nat.lt_of_lt_of_le ?_ (Text.length_trim_le raw)
  cases hform : of (Text.trim raw) with
  | reference target =>
    rw [hform] at h
    rw [List.mem_singleton.1 h]
    exact length_target hform
  | array element =>
    rw [hform] at h
    rw [List.mem_singleton.1 h]
    exact length_element hform
  | generic name arguments =>
    rw [hform] at h
    exact Nat.lt_of_le_of_lt (Params.length_of_mem_split h) (length_arguments hform)
  | plain =>
    rw [hform] at h
    cases h

theorem of_reference (t : Text) : of (t ++ "@") = .reference t := by
  have hend : Text.dropEnding? "@" (t ++ "@") = some t := Text.dropEnding?_append '@' t
  rw [of, hend]

theorem of_array {t dimensions : Text} (ho : '[' ∉ dimensions) (hc : '}' ∉ dimensions) :
    of (t ++ "[" ++ dimensions ++ "]") = .array t := by
  have hlast : (t ++ "[" ++ dimensions ++ "]").getLast? = some ']' := List.getLast?_concat
  have hend : Text.dropEnding? "@" (t ++ "[" ++ dimensions ++ "]") = none :=
    Text.dropEnding?_eq_none (by rw [hlast]; decide)
  have hcut : Text.cutLast? '[' (t ++ "[" ++ dimensions ++ "]") = some (t, dimensions ++ "]") := by
    have hafter : '[' ∉ dimensions ++ "]" := by simp [ho]
    simpa using Text.cutLast?_append hafter t
  have helement : element? (t ++ "[" ++ dimensions ++ "]") = some t := by
    rw [element?, if_pos hlast, hcut]
    exact if_neg (by simp [hc])
  rw [of, hend, helement]

theorem of_generic {name arguments : Text} (ho : '{' ∉ name) :
    of (name ++ "\x7b" ++ arguments ++ "\x7d") = .generic name arguments := by
  have hlast : (name ++ "\x7b" ++ arguments ++ "\x7d").getLast? = some '}' := List.getLast?_concat
  have hend : Text.dropEnding? "@" (name ++ "\x7b" ++ arguments ++ "\x7d") = none :=
    Text.dropEnding?_eq_none (by rw [hlast]; decide)
  have helement : element? (name ++ "\x7b" ++ arguments ++ "\x7d") = none :=
    if_neg (by rw [hlast]; decide)
  have hcut : Text.cutFirst? '{' (name ++ "\x7b" ++ arguments ++ "\x7d") =
      some (name, arguments ++ "\x7d") := by
    simpa using Text.cutFirst?_append ho (arguments ++ "\x7d")
  have hdrop : Text.dropEnding? ['}'] (arguments ++ "\x7d") = some arguments :=
    Text.dropEnding?_append '}' arguments
  rw [of, hend, helement, arguments?, hcut]
  simp only [hdrop, Option.map_some]

theorem of_plain {t : Text} (hr : t.getLast? ≠ some '@') (hd : t.getLast? ≠ some ']')
    (hb : '{' ∉ t ∨ t.getLast? ≠ some '}') : of t = .plain := by
  have hend : Text.dropEnding? "@" t = none := Text.dropEnding?_eq_none hr
  have helement : element? t = none := if_neg hd
  have harguments : arguments? t = none := by
    rw [arguments?]
    cases hcut : Text.cutFirst? '{' t with
    | none => rfl
    | some cut =>
      obtain ⟨rfl, -⟩ := Text.eq_of_cutFirst? hcut
      have hlast : (cut.2).getLast? ≠ some '}' := by
        intro hlast
        rcases hb with hb | hb
        · simp at hb
        · rw [List.getLast?_append, List.getLast?_cons, hlast] at hb
          exact hb rfl
      have hdrop : Text.dropEnding? ['}'] cut.2 = none := Text.dropEnding?_eq_none hlast
      simp only [hdrop, Option.map_none]
  rw [of, hend, helement, harguments]

end TypeForm

theorem typeText_eq (assembly raw : Text) :
    typeText assembly raw = (TypeForm.of (Text.trim raw)).textWith (typeText assembly)
      (plainText assembly (Text.trim raw)) := by
  rw [typeText]
  split
  · next h => rw [h, TypeForm.textWith]
  · next h => rw [h, TypeForm.textWith]
  · next h => rw [h, TypeForm.textWith, List.map_attach_eq_pmap, List.pmap_eq_map]
  · next h => rw [h, TypeForm.textWith]

theorem TypeForm.textWith_congr {read read' : Text → Text} {form : TypeForm}
    (h : ∀ part ∈ form.parts, read part = read' part) (whole : Text) :
    form.textWith read whole = form.textWith read' whole := by
  cases form with
  | reference target => rw [textWith, textWith, h target (List.mem_singleton_self target)]
  | array element => rw [textWith, textWith, h element (List.mem_singleton_self element)]
  | generic name arguments => exact congrArg (genericText name) (List.map_congr_left h)
  | plain => rfl

theorem lastSegment_dropOpening (opening t : Text) :
    lastSegment (dropOpening (opening ++ ['.']) t) = lastSegment t := by
  rw [dropOpening]
  cases hd : Text.dropOpening? (opening ++ ['.']) t with
  | none => rfl
  | some rest =>
    have ht : t = opening ++ '.' :: rest := by simpa using Text.dropOpening?_eq_some.1 hd
    rw [ht]
    exact (Text.afterLast_behind '.' opening rest).symm

theorem lastSegment_stripNamespace (assembly t : Text) :
    lastSegment (stripNamespace assembly t) = lastSegment t := by
  -- What is cut off in front of a name lies in front of its last segment anyway.
  rw [stripNamespace, show ("System." : Text) = "System" ++ ['.'] from rfl, lastSegment_dropOpening]
  split
  · rfl
  · exact lastSegment_dropOpening assembly t

theorem plainText_eq (assembly t : Text) :
    plainText assembly t = (valueKeyword? (lastSegment t)).getD (lastSegment t) := by
  rw [plainText, valueKeyword?, lastSegment_stripNamespace]
  cases keywordOf? (lastSegment t) with
  | none => rfl
  | some word =>
    by_cases hword : word = "string" ∨ word = "object"
    · simp only [Option.bind_some, if_pos hword, Option.getD_none]
    · simp only [Option.bind_some, if_neg hword, Option.getD_some]

namespace TypeExpr

theorem text_named (name : TypeName) (assembly : Text) :
    (named name).text = plainText assembly name.text :=
  (plainText_eq assembly name.text).symm

theorem text_generic (name : TypeName) (first : TypeExpr) (others : List TypeExpr) :
    (generic name first others).text = genericText name.text (first.text :: others.map text) := by
  rw [text, textAll_eq_map, genericText]
  cases others with
  | nil =>
    by_cases hname : name.text = "System.Nullable"
    · rw [if_pos ⟨hname, rfl⟩, if_pos ⟨hname, rfl⟩, List.map_nil, Text.joinWith_singleton]
    · rw [if_neg fun h => hname h.1, if_neg fun h => hname h.1]
  | cons t others => rw [if_neg (by simp), if_neg (by simp)]

theorem typeText_spelling (assembly : Text) (t : TypeExpr) : typeText assembly t.spelling = t.text := by
  induction t with
  | named name =>
    have hlast (c : Char) (hc : isTypeNameChar c = false) : name.text.getLast? ≠ some c :=
      fun h => name.not_mem hc (List.mem_of_getLast? h)
    have hform : TypeForm.of name.text = .plain :=
      TypeForm.of_plain (hlast '@' rfl) (hlast ']' rfl) (.inl (name.not_mem rfl))
    have ht : Text.trim name.text = name.text := trim_spelling (.named name)
    rw [spelling, typeText_eq, ht, hform, TypeForm.textWith, text_named]
  | generic name first others hfirst hothers =>
    have hform : TypeForm.of (spelling (.generic name first others)) =
        .generic name.text (Text.joinWith "," (first.spelling :: others.map spelling)) := by
      rw [spelling, spellingAll_eq_map]
      exact TypeForm.of_generic (name.not_mem rfl)
    have harguments : (first.spelling :: others.map spelling).map (typeText assembly) =
        first.text :: others.map text := by
      rw [List.map_cons, List.map_map, hfirst]
      exact congrArg (first.text :: ·) (List.map_congr_left hothers)
    rw [typeText_eq, trim_spelling, hform, TypeForm.textWith, split_arguments, harguments,
      text_generic]
  | array element dimensions ih =>
    have hform : TypeForm.of (spelling (.array element dimensions)) = .array element.spelling := by
      rw [spelling]
      exact TypeForm.of_array (dimensions.not_mem rfl (by decide)) (dimensions.not_mem rfl (by decide))
    rw [typeText_eq, trim_spelling, hform, TypeForm.textWith, ih, text]
  | reference target ih =>
    have hform : TypeForm.of (spelling (.reference target)) = .reference target.spelling := by
      rw [spelling]
      exact TypeForm.of_reference _
    rw [typeText_eq, trim_spelling, hform, TypeForm.textWith, ih, text]

end TypeExpr

/-- A spelled type reads as its text, whatever the documented assembly is called. The reading of any
text is one step on what shorter texts read as, so it comes to an end. -/
theorem spelled_types_read_as_texts (assembly : Text) :
    (∀ (t : TypeExpr) (before behind : Text), Text.allBlank before = true →
      Text.allBlank behind = true → typeText assembly (before ++ t.spelling ++ behind) = t.text) ∧
    ∀ (raw : Text) (read : Text → Text),
      (∀ part, part.length < raw.length → read part = typeText assembly part) →
      typeText assembly raw = (TypeForm.of (Text.trim raw)).textWith read
        (plainText assembly (Text.trim raw)) := by
  constructor
  · intro t before behind hbefore hbehind
    have htrim : Text.trim (before ++ t.spelling ++ behind) = Text.trim t.spelling := by
      rw [Text.trim_between hbefore t.not_isBlank_of_mem_spelling hbehind, t.trim_spelling]
    rw [typeText_eq, htrim, ← typeText_eq, t.typeText_spelling]
  · intro raw read hread
    rw [typeText_eq]
    refine TypeForm.textWith_congr ?_ _
    intro part hpart
    exact (hread part (TypeForm.length_of_mem_parts hpart)).symm

def nullableArray : TypeExpr :=
  let int : TypeExpr := .named ⟨"System.Int32", by decide, Text.forall_mem_of_all (by decide)⟩
  let string : TypeExpr := .named ⟨"System.String", by decide, Text.forall_mem_of_all (by decide)⟩
  let matrix : TypeExpr := .array int ⟨"0:,0:", Text.forall_mem_of_all (by decide)⟩
  let map : TypeExpr :=
    .generic ⟨"A.Map", by decide, Text.forall_mem_of_all (by decide)⟩ matrix [string]
  .reference (.generic ⟨"System.Nullable", by decide, Text.forall_mem_of_all (by decide)⟩
    (.array map ⟨"", Text.forall_mem_of_all rfl⟩) [])

theorem spelled_types_read_as_texts_nullable :
    Text.allBlank " " = true ∧ Text.allBlank "\n" = true ∧
    nullableArray.spelling = "System.Nullable\x7bA.Map\x7bSystem.Int32[0:,0:],System.String\x7d[]\x7d@" ∧
    typeText "A" (" " ++ nullableArray.spelling ++ "\n") = "Map‹int[], String›[]?@" ∧
    let read (part : Text) := if part.length < 3 then typeText "A" part else []
    typeText "A" "B[]" = (TypeForm.of (Text.trim "B[]")).textWith read (plainText "A" (Text.trim "B[]")) := by
  obtain ⟨hspelled, hstep⟩ := spelled_types_read_as_texts "A"
  have htext : nullableArray.text = "Map‹int[], String›[]?@" := by decide +kernel
  refine ⟨by decide, by decide, by decide +kernel, ?_, ?_⟩
  · rw [hspelled nullableArray " " "\n" (by decide) (by decide), htext]
  · exact hstep "B[]" _ fun part hpart => if_pos hpart

end Docmark
