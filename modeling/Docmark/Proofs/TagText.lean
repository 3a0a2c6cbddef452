import Mathlib.Data.List.Nodup
import Docmark.Markup.Event
import Docmark.Proofs.Spelling

namespace Docmark.Markup

open Reference (Spells)

def isNameChar (c : Char) : Bool :=
  c.isAlphanum || c == '_' || c == '-' || c == '.'

def isPlainName : Text → Bool
  | [] => false
  | c :: cs => c.isAlpha && cs.all isNameChar

def isValueChar (c : Char) : Bool :=
  !(c == '<' || c == '&' || c == '"')

inductive AttributesText : List (Text × Text) → Text → Prop
  | nil {space : Text} : space.all isSpace → AttributesText [] space
  | cons {space key before behind written value rest : Text} {attributes : List (Text × Text)} :
    space ≠ [] → space.all isSpace → before.all isSpace → behind.all isSpace →
      Spells isValueChar written value → AttributesText attributes rest →
      AttributesText ((key, value) :: attributes)
        (space ++ (key ++ (before ++ '=' :: (behind ++ '"' :: (written ++ '"' :: rest)))))

def TagText (tag : StartTag) (content : Text) : Prop :=
  ∃ rest, AttributesText tag.attributes rest ∧ content = tag.name ++ rest

structure PlainTag (tag : StartTag) : Prop where
  name : isPlainName tag.name
  keys : ∀ a ∈ tag.attributes, isPlainName a.1
  nodup : (tag.attributes.map Prod.fst).Nodup

theorem isPlainName_cases {name : Text} (h : isPlainName name) :
    ∃ c cs, name = c :: cs ∧ c.isAlpha ∧ cs.all isNameChar := by
  cases name with
  | nil => cases h
  | cons c cs =>
    rw [isPlainName, Bool.and_eq_true] at h
    exact ⟨c, cs, rfl, h⟩

theorem isNameChar_of_plain {name : Text} (h : isPlainName name) : ∀ c ∈ name, isNameChar c := by
  obtain ⟨c, cs, rfl, hc, hcs⟩ := isPlainName_cases h
  intro x hx
  rcases List.mem_cons.1 hx with rfl | hx
  · simp [isNameChar, Char.isAlphanum, hc]
  · exact List.all_eq_true.1 hcs x hx

theorem not_mem_of_plain {name : Text} (h : isPlainName name) {x : Char} (hx : isNameChar x = false) :
    x ∉ name := by
  intro hm
  have := isNameChar_of_plain h x hm
  rw [hx] at this
  cases this

theorem not_isSpace_of_isNameChar {c : Char} (h : isNameChar c) : isSpace c = false := by
  by_contra hs
  simp only [isSpace, Bool.not_eq_false, Bool.or_eq_true, beq_iff_eq] at hs
  rcases hs with ((rfl | rfl) | rfl) | rfl <;> exact absurd h (by decide)

theorem localName_of_plain {name : Text} (h : isPlainName name) : localName name = name := by
  have hc : Text.cutLast? ':' name = none := Text.cutLast?_eq_none.2 (not_mem_of_plain h (by decide))
  rw [localName, Text.afterLast, hc]

theorem dropSpace_append {space : Text} (h : space.all isSpace) (t : Text) :
    dropSpace (space ++ t) = dropSpace t :=
  List.dropWhile_append_of_pos (List.all_eq_true.1 h)

theorem dropSpace_cons {c : Char} (h : isSpace c = false) (t : Text) :
    dropSpace (c :: t) = c :: t := by
  rw [dropSpace, List.dropWhile_cons_of_neg (by simp [h])]

theorem dropSpace_all {space : Text} (h : space.all isSpace) : dropSpace space = [] := by
  have := dropSpace_append h []
  rwa [List.append_nil] at this

theorem quote_not_mem_of_spells {written value : Text} (h : Spells isValueChar written value) :
    '"' ∉ written :=
  Reference.not_mem_of_spells h (by decide) (by decide) (by decide) (by decide)

theorem AttributesText.head {attributes : List (Text × Text)} {t : Text}
    (h : AttributesText attributes t) : ∀ c ∈ t.head?, isSpace c := by
  cases h with
  | nil hs =>
    intro c hc
    exact List.all_eq_true.1 hs c (List.mem_of_head? hc)
  | @cons space _ _ _ _ _ _ _ hne hs =>
    cases space with
    | nil => exact absurd rfl hne
    | cons x xs =>
      intro c hc
      rw [List.cons_append, List.head?_cons, Option.mem_some_iff] at hc
      subst hc
      exact List.all_eq_true.1 hs x List.mem_cons_self

theorem cutKey_append {c : Char} {cs before : Text} (hcs : cs.all isNameChar)
    (hb : before.all isSpace) (t : Text) :
    cutKey c (cs ++ (before ++ '=' :: t)) = (c :: cs, '=' :: t) := by
  have hin : ∀ x ∈ cs, (!(x == '=' || isSpace x)) = true := by
    intro x hx
    have hname := List.all_eq_true.1 hcs x hx
    have heq : x ≠ '=' := by
      rintro rfl
      exact absurd hname (by decide)
    simp [heq, not_isSpace_of_isNameChar hname]
  have hout : ∀ x ∈ (before ++ '=' :: t).head?, (!(x == '=' || isSpace x)) = false := by
    intro x hx
    cases before with
    | nil =>
      rw [List.nil_append, List.head?_cons, Option.mem_some_iff] at hx
      rw [← hx]
      decide
    | cons y ys =>
      rw [List.cons_append, List.head?_cons, Option.mem_some_iff] at hx
      rw [← hx, List.all_eq_true.1 hb y List.mem_cons_self]
      simp
  rw [cutKey, Text.takeWhile_append hin hout, Text.dropWhile_append hin hout, dropSpace_append hb,
    dropSpace_cons (by decide)]

theorem attributeStep_quoted {behind written : Text} (hb : behind.all isSpace)
    (hw : '"' ∉ written) (rest : Text) :
    attributeStep false ('=' :: (behind ++ '"' :: (written ++ '"' :: rest))) =
      ⟨some written, true, rest⟩ := by
  rw [attributeStep, if_neg (by decide), dropSpace_append hb, dropSpace_cons (by decide)]
  simp [isQuote, Text.cutFirst?_append hw]

theorem attributesFrom_text {attributes : List (Text × Text)} {t : Text}
    (h : AttributesText attributes t) (hk : ∀ a ∈ attributes, isPlainName a.1) {seen : List Text}
    (hn : (seen ++ attributes.map Prod.fst).Nodup) :
    (attributesFrom seen t).map (fun (key, value) => (localName key, Reference.decode value)) =
      attributes := by
  induction h generalizing seen with
  | nil hs =>
    rw [attributesFrom]
    split
    · rfl
    · next hd =>
      rw [dropSpace_all hs] at hd
      cases hd
  | @cons space key before behind written value rest attributes hne hs hb hbe hw _ ih =>
    have hkey := hk (key, value) List.mem_cons_self
    obtain ⟨c, cs, rfl, hc, hcs⟩ := isPlainName_cases hkey
    have hstart : isSpace c = false :=
      not_isSpace_of_isNameChar (isNameChar_of_plain hkey c List.mem_cons_self)
    have hquote := quote_not_mem_of_spells hw
    rw [List.map_cons, List.nodup_middle] at hn
    have hseen : c :: cs ∉ seen := fun hm => (List.nodup_cons.1 hn).1 (List.mem_append_left _ hm)
    rw [attributesFrom]
    split
    · next hd =>
      rw [dropSpace_append hs, List.cons_append, dropSpace_cons hstart] at hd
      cases hd
    · next first more hd =>
      rw [dropSpace_append hs, List.cons_append, dropSpace_cons hstart, List.cons.injEq] at hd
      obtain ⟨rfl, rfl⟩ := hd
      simp only [cutKey_append hcs hb, hseen, decide_false, attributeStep_quoted hbe hquote,
        if_true, List.map_cons, localName_of_plain hkey,
        Reference.decode_spells (by decide : isValueChar '&' = false) hw]
      exact congrArg _ (ih (fun a ha => hk a (List.mem_cons_of_mem _ ha)) hn)

theorem tagName_text {tag : StartTag} (hp : PlainTag tag) {content : Text} (h : TagText tag content) :
    tagName content = tag.name := by
  obtain ⟨rest, hr, rfl⟩ := h
  apply Text.takeWhile_append
  · intro c hc
    simp [not_isSpace_of_isNameChar (isNameChar_of_plain hp.name c hc)]
  · intro c hc
    simp [hr.head c hc]

theorem startTag_text {tag : StartTag} (hp : PlainTag tag) {content : Text} (h : TagText tag content)
    (position : Position) : startTag position content = { tag with position := position } := by
  have hname := tagName_text hp h
  obtain ⟨rest, hr, rfl⟩ := h
  have hword : dropWord (tag.name ++ rest) = rest := by
    apply Text.dropWhile_append
    · intro c hc
      simp [not_isSpace_of_isNameChar (isNameChar_of_plain hp.name c hc)]
    · intro c hc
      simp [hr.head c hc]
  rw [startTag, hname, localName_of_plain hp.name, hword, attributes,
    attributesFrom_text hr hp.keys hp.nodup]

theorem endName_text {name space : Text} (hn : isPlainName name) (hs : space.all isSpace) :
    endName (name ++ space) = name := by
  have hout : ∀ c ∈ name, isSpace c = false := fun c hc =>
    not_isSpace_of_isNameChar (isNameChar_of_plain hn c hc)
  obtain ⟨c, cs, rfl, -, -⟩ := isPlainName_cases hn
  have hall : ¬ (c :: cs ++ space).all isSpace = true := by
    simp [hout c List.mem_cons_self]
  rw [endName, if_neg hall, Text.trimEnd_append_of_all hout hs]

def Passes (s : Text) : Prop :=
  ∀ t, Token.cutTag none (s ++ t) =
    (Token.cutTag none t).map fun (before, after) => (s ++ before, after)

theorem Passes.append {s t : Text} (hs : Passes s) (ht : Passes t) : Passes (s ++ t) := by
  intro u
  rw [List.append_assoc, hs, ht]
  cases Token.cutTag none u <;> simp [Except.map]

theorem passes_of_all {p : Char → Bool} {s : Text} (h : s.all p)
    (hp : ['>', '"', '\x27'].any p = false) : Passes s := by
  intro t
  induction s with
  | nil => cases ht : Token.cutTag none t <;> simp [ht, Except.map]
  | cons c cs ih =>
    rw [List.all_cons, Bool.and_eq_true] at h
    have hout : c ∉ ['>', '"', '\x27'] := by
      intro hm
      exact List.any_eq_false.1 hp c hm h.1
    simp only [List.mem_cons, List.not_mem_nil, or_false, not_or] at hout
    have hq : quoteAfter none c = none := by simp [quoteAfter, isQuote, hout]
    rw [List.cons_append, Token.cutTag, if_neg (by simp [hout.1]), hq,
      ih h.2]
    cases Token.cutTag none t <;> simp [Except.map]

theorem cutTag_quoted {s : Text} (h : '"' ∉ s) (t : Text) :
    Token.cutTag (some '"') (s ++ '"' :: t) =
      (Token.cutTag none t).map fun (before, after) => (s ++ '"' :: before, after) := by
  induction s with
  | nil =>
    rw [List.nil_append, Token.cutTag, if_neg (by simp)]
    simp [quoteAfter]
  | cons c cs ih =>
    rw [List.mem_cons, not_or] at h
    rw [List.cons_append, Token.cutTag, if_neg (by simp)]
    have hq : quoteAfter (some '"') c = some '"' := by simp [quoteAfter, Ne.symm h.1]
    rw [hq, ih h.2]
    cases Token.cutTag none t <;> simp [Except.map]

theorem passes_quoted {s : Text} (h : '"' ∉ s) : Passes ('"' :: (s ++ ['"'])) := by
  intro t
  rw [List.cons_append, List.append_assoc, List.singleton_append, Token.cutTag, if_neg (by simp)]
  have hq : quoteAfter none '"' = some '"' := by decide
  rw [hq, cutTag_quoted h]
  cases Token.cutTag none t <;> simp [Except.map]

theorem passes_of_name {name : Text} (h : isPlainName name) : Passes name :=
  passes_of_all (List.all_eq_true.2 (isNameChar_of_plain h)) (by decide)

theorem passes_of_space {space : Text} (h : space.all isSpace) : Passes space :=
  passes_of_all h (by decide)

theorem AttributesText.passes {attributes : List (Text × Text)} {t : Text}
    (h : AttributesText attributes t) (hk : ∀ a ∈ attributes, isPlainName a.1) : Passes t := by
  induction h with
  | nil hs => exact passes_of_space hs
  | @cons space key before behind written value rest attributes _ hs hb hbe hw _ ih =>
    have hquote := quote_not_mem_of_spells hw
    have hkey := passes_of_name (hk (key, value) List.mem_cons_self)
    have hrest := ih fun a ha => hk a (List.mem_cons_of_mem _ ha)
    have heq : Passes ['='] := passes_of_all (p := (· == '=')) (by decide) (by decide)
    have hvalue := (passes_of_space hbe).append ((passes_quoted hquote).append hrest)
    have hassign := (passes_of_space hb).append (heq.append hvalue)
    have hall := (passes_of_space hs).append (hkey.append hassign)
    simpa only [List.append_assoc, List.cons_append, List.nil_append] using hall

theorem cutTag_of_passes {s : Text} (h : Passes s) (rest : Text) :
    Token.cutTag none (s ++ '>' :: rest) = .ok (s, rest) := by
  rw [h, Token.cutTag, if_pos ⟨rfl, rfl⟩]
  simp [Except.map]

theorem TagText.passes {tag : StartTag} (hp : PlainTag tag) {content : Text}
    (h : TagText tag content) : Passes content := by
  obtain ⟨rest, hr, rfl⟩ := h
  exact (passes_of_name hp.name).append (hr.passes hp.keys)

theorem AttributesText.getLast?_ne {attributes : List (Text × Text)} {t : Text}
    (h : AttributesText attributes t) {front : Text} (hf : front.getLast? ≠ some '/') :
    (front ++ t).getLast? ≠ some '/' := by
  -- Behind the name no slash comes last, so that none is taken for that of an empty element.
  induction h generalizing front with
  | @nil space hs =>
    intro hl
    rw [List.getLast?_append] at hl
    cases hlast : space.getLast? with
    | none => exact hf (by simpa [hlast] using hl)
    | some c =>
      have hc := List.all_eq_true.1 hs c (List.mem_of_getLast? hlast)
      rw [hlast, Option.some_or, Option.some.injEq] at hl
      rw [hl] at hc
      exact absurd hc (by decide)
  | @cons space key before behind written value rest _ _ _ _ _ _ _ ih =>
    have hquote :
        (front ++ space ++ key ++ before ++ '=' :: behind ++ '"' :: written ++ ['"']).getLast? ≠
          some '/' := by
      rw [List.getLast?_concat]
      decide
    simpa using ih hquote

theorem TagText.getLast?_ne {tag : StartTag} (hp : PlainTag tag) {content : Text}
    (h : TagText tag content) : content.getLast? ≠ some '/' := by
  obtain ⟨rest, hr, rfl⟩ := h
  apply hr.getLast?_ne
  intro hl
  exact not_mem_of_plain hp.name (by decide) (List.mem_of_getLast? hl)

theorem ofTag_opening {content : Text} (h : content.getLast? ≠ some '/') :
    Token.ofTag content = .opening content := by
  rw [Token.ofTag]
  split
  · next inner hd =>
    rw [Text.dropEnding?_eq_some.1 hd] at h
    exact absurd List.getLast?_concat h
  · rfl

theorem ofTag_empty (content : Text) : Token.ofTag (content ++ ['/']) = .empty content := by
  have hd : Text.dropEnding? "/" (content ++ ['/']) = some content :=
    Text.dropEnding?_eq_some.2 rfl
  rw [Token.ofTag, hd]

theorem readMarkup_of_isAlpha {c : Char} (h : c.isAlpha) {s : Text} (hs : Passes (c :: s))
    (rest : Text) :
    Token.readMarkup (c :: (s ++ '>' :: rest)) = .ok (Token.ofTag (c :: s), rest) := by
  have hcut := cutTag_of_passes hs rest
  rw [List.cons_append] at hcut
  unfold Token.readMarkup
  split
  · next heq =>
    rw [(List.cons.inj heq).1] at h
    exact absurd h (by decide)
  · next heq =>
    rw [(List.cons.inj heq).1] at h
    exact absurd h (by decide)
  · next heq =>
    rw [(List.cons.inj heq).1] at h
    exact absurd h (by decide)
  · rw [hcut]
    rfl

theorem TagText.cons {tag : StartTag} (hp : PlainTag tag) {content : Text} (h : TagText tag content) :
    ∃ c cs, content = c :: cs ∧ c.isAlpha := by
  obtain ⟨rest, -, rfl⟩ := h
  obtain ⟨c, cs, hname, hc, -⟩ := isPlainName_cases hp.name
  exact ⟨c, cs ++ rest, by rw [hname, List.cons_append], hc⟩

theorem read_opening {tag : StartTag} (hp : PlainTag tag) {content : Text} (h : TagText tag content)
    (rest : Text) : Token.read '<' (content ++ '>' :: rest) = .ok (.opening content, rest) := by
  have hpass := h.passes hp
  have hlast := h.getLast?_ne hp
  obtain ⟨c, cs, rfl, hc⟩ := h.cons hp
  rw [Token.read, if_pos rfl, List.cons_append, readMarkup_of_isAlpha hc hpass rest,
    ofTag_opening hlast]

theorem read_empty_of_passes {c : Char} (hc : c.isAlpha) {s : Text} (hs : Passes (c :: s)) (rest : Text) :
    Token.read '<' (c :: s ++ '/' :: '>' :: rest) = .ok (.empty (c :: s), rest) := by
  have hslash : Passes (c :: (s ++ ['/'])) :=
    hs.append (passes_of_all (p := (· == '/')) (by decide) (by decide))
  have hread := readMarkup_of_isAlpha hc hslash rest
  rw [Token.read, if_pos rfl, ← ofTag_empty (c :: s)]
  simpa using hread

theorem read_empty {tag : StartTag} (hp : PlainTag tag) {content : Text} (h : TagText tag content)
    (rest : Text) : Token.read '<' (content ++ '/' :: '>' :: rest) = .ok (.empty content, rest) := by
  have hpass := h.passes hp
  obtain ⟨c, cs, rfl, hc⟩ := h.cons hp
  exact read_empty_of_passes hc hpass rest

theorem read_closing {name space : Text} (hn : isPlainName name) (hs : space.all isSpace)
    (rest : Text) :
    Token.read '<' ('/' :: (name ++ space) ++ '>' :: rest) = .ok (.closing (name ++ space), rest) := by
  have hcut := cutTag_of_passes ((passes_of_name hn).append (passes_of_space hs)) rest
  rw [Token.read, if_pos rfl, List.cons_append, Token.readMarkup, hcut]
  rfl

end Docmark.Markup
