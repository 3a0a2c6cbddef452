import Docmark.Proofs.ReadBack

namespace Docmark

namespace Reference

inductive Refers : Text → Char → Prop
  | named {name : Text} {c : Char} : Names name c → Refers name c
  | decimal {digits : Text} {c : Char} : Numeral 10 digits c.toNat → Refers ('#' :: '+' :: digits) c
  | hexadecimal {digits : Text} {c : Char} :
    Numeral 16 digits c.toNat → Refers ('#' :: 'x' :: '+' :: digits) c

theorem refers_of_number? {base : Nat} {t : Text} {c : Char} (front : Text) (hb : base ≤ 16)
    (hplain : ∀ digits, Numeral base digits c.toNat → Refers (front ++ digits) c)
    (hsigned : ∀ digits, Numeral base digits c.toNat → Refers (front ++ '+' :: digits) c)
    (h : (number? base t).bind char? = some c) : Refers (front ++ t) c := by
  obtain ⟨n, hnumber, hchar⟩ := Option.bind_eq_some_iff.1 h
  obtain rfl := char?_eq_some_iff.1 hchar
  obtain hnumeral | ⟨digits, rfl, hnumeral⟩ := (number?_eq_some_iff hb).1 hnumber
  · exact hplain t hnumeral
  · exact hsigned digits hnumeral

theorem number?_bind_char? {base : Nat} {digits : Text} {c : Char} (hb : base ≤ 16)
    (h : Numeral base digits c.toNat) : (number? base ('+' :: digits)).bind char? = some c := by
  rw [(number?_eq_some_iff hb).2 (.inr ⟨digits, rfl, h⟩), Option.bind_some, char?_toNat]

theorem resolve?_eq_some_iff {name : Text} {c : Char} : resolve? name = some c ↔ Refers name c := by
  constructor
  · intro h
    unfold resolve? at h
    repeat' split at h
    · next hname =>
      cases h
      exact .named (hname ▸ .apostrophe)
    · next hname =>
      cases h
      exact .named (hname ▸ .quote)
    · next hname =>
      cases h
      exact .named (hname ▸ .less)
    · next hname =>
      cases h
      exact .named (hname ▸ .greater)
    · next hname =>
      cases h
      exact .named (hname ▸ .ampersand)
    · exact refers_of_number? ['#', 'x'] (by omega)
        (fun digits hd => .named (.hexadecimal hd)) (fun digits hd => .hexadecimal hd) h
    · exact refers_of_number? ['#'] (by omega)
        (fun digits hd => .named (.decimal hd)) (fun digits hd => .decimal hd) h
    · cases h
  · intro h
    cases h with
    | named hn => exact resolve?_of_names hn
    | decimal hd => simpa [resolve?] using number?_bind_char? (by omega) hd
    | hexadecimal hd => simpa [resolve?] using number?_bind_char? (by omega) hd

theorem not_mem_of_refers {name : Text} {c x : Char} (h : Refers name c) (hx : isNameLetter x = false)
    (hplus : x ≠ '+') : x ∉ name := by
  have hdigits {base : Nat} {digits : Text} (hb : base ≤ 16) (hd : Numeral base digits c.toNat) :
      x ∉ digits := by
    intro hm
    rw [isNameLetter, hd.isAlphanum hb x hm] at hx
    cases hx
  have hletters : x ≠ '#' ∧ x ≠ 'x' := by
    constructor <;> rintro rfl <;> exact absurd hx (by decide)
  cases h with
  | named hn => exact not_mem_of_names hn hx
  | decimal hd => simp [hletters, hplus, hdigits (by omega) hd]
  | hexadecimal hd => simp [hletters, hplus, hdigits (by omega) hd]

/-- What a text says where every reference ends at the next semicolon: one that calls a character is
replaced by it, another one stays as it is. -/
inductive Decodes : Text → Text → Prop
  | nil : Decodes [] []
  | char {c : Char} {t content : Text} : c ≠ '&' → Decodes t content → Decodes (c :: t) (c :: content)
  | reference {name : Text} {c : Char} {t content : Text} :
    Refers name c → Decodes t content → Decodes ('&' :: name ++ ';' :: t) (c :: content)
  | unknown {name t content : Text} :
    ';' ∉ name → '&' ∉ name → (∀ c, ¬ Refers name c) → Decodes t content →
      Decodes ('&' :: name ++ ';' :: t) ('&' :: name ++ ';' :: content)

theorem decode_append {s : Text} (h : '&' ∉ s) (t : Text) : decode (s ++ t) = s ++ decode t := by
  induction s with
  | nil => rfl
  | cons c cs ih =>
    rw [List.mem_cons, not_or] at h
    rw [List.cons_append, decode_char (Ne.symm h.1), ih h.2, List.cons_append]

theorem decode_unresolved {name : Text} (hend : ';' ∉ name) (hamp : '&' ∉ name)
    (hnone : resolve? name = none) (t : Text) :
    decode ('&' :: name ++ ';' :: t) = '&' :: name ++ ';' :: decode t := by
  have hl : leading? (name ++ ';' :: t) = none := by
    rw [leading?_append hend, hnone, Option.map_none]
  rw [List.cons_append, decode, if_pos rfl]
  split
  · next hs =>
    rw [hl] at hs
    cases hs
  · rw [decode_append hamp, decode_char (by decide), List.cons_append]

theorem resolve?_eq_none_iff {name : Text} : resolve? name = none ↔ ∀ c, ¬ Refers name c := by
  simp only [Option.eq_none_iff_forall_ne_some, ne_eq, resolve?_eq_some_iff]

theorem Decodes.decode_eq {t content : Text} (h : Decodes t content) : decode t = content := by
  induction h with
  | nil => rw [decode]
  | char hc _ ih => rw [decode_char hc, ih]
  | reference hr _ ih =>
    rw [decode_resolved (not_mem_of_refers hr (by decide) (by decide)) (resolve?_eq_some_iff.2 hr), ih]
  | unknown hend hamp hnone _ ih => rw [decode_unresolved hend hamp (resolve?_eq_none_iff.2 hnone), ih]

end Reference

namespace Markup

open Reference (Decodes)

variable {place : Nat → Position} {names : List Text} {b : Builder} {offset : Nat} {s rest : Text}

theorem referenceText_of_refers {name : Text} {c : Char} (h : Reference.Refers name c) :
    referenceText name = [c] := by
  rw [referenceText, Reference.resolve?_eq_some_iff.2 h]

theorem referenceText_of_unknown {name : Text} (h : ∀ c, ¬ Reference.Refers name c) :
    referenceText name = '&' :: (name ++ [';']) := by
  rw [referenceText, Reference.resolve?_eq_none_iff.2 h]
  rfl

theorem resume_decodes {content : Text} (h : Decodes s content) (hs : '<' ∉ s) (place : Nat → Position)
    (offset : Nat) :
    ∃ after, ∀ names b rest, resume place names b offset (s ++ rest) =
      resume place names (content.foldl (fun b c => b.addText [c]) b) after rest := by
  induction h generalizing offset with
  | nil => exact ⟨offset, fun names b rest => rfl⟩
  | @char c t content hc _ ih =>
    rw [List.mem_cons, not_or] at hs
    obtain ⟨after, ha⟩ := ih hs.2 (offset + c.utf8Size)
    refine ⟨after, ?_⟩
    intro names b rest
    have htext : Token.isText c = true := by simp [Token.isText, hc, Ne.symm hs.1]
    rw [List.cons_append, resume_char htext, ha, List.foldl_cons]
  | @reference name c t content hr _ ih =>
    simp only [List.mem_cons, List.mem_append, not_or, List.cons_append] at hs
    obtain ⟨after, ha⟩ := ih hs.2.2.2 (offset + Text.byteSize (Token.reference name).source)
    refine ⟨after, ?_⟩
    intro names b rest
    have hread := read_reference (Reference.not_mem_of_refers hr (by decide) (by decide))
      (Reference.not_mem_of_refers hr (by decide) (by decide)) hs.2.1 (t ++ rest)
    rw [List.append_assoc, List.cons_append, List.cons_append, resume_reference hread,
      referenceText_of_refers hr, ha, List.foldl_cons]
  | @unknown name t content hend hamp hnone _ ih =>
    simp only [List.mem_cons, List.mem_append, not_or, List.cons_append] at hs
    obtain ⟨after, ha⟩ := ih hs.2.2.2 (offset + Text.byteSize (Token.reference name).source)
    refine ⟨after, ?_⟩
    intro names b rest
    have hread := read_reference hend hamp hs.2.1 (t ++ rest)
    have hwritten : '&' :: name ++ ';' :: content = '&' :: (name ++ [';']) ++ content := by simp
    have hkept : ('&' :: (name ++ [';'])).foldl (fun b c => b.addText [c]) b =
        b.addText ('&' :: (name ++ [';'])) := Builder.foldl_addText b ['&'] (name ++ [';'])
    rw [List.append_assoc, List.cons_append, List.cons_append, resume_reference hread,
      referenceText_of_unknown hnone, ha, hwritten, List.foldl_append, hkept]

theorem resume_fault {c : Char} {t : Text} {fault : Fault} (h : Token.read c t = .error fault) :
    resume place names b offset (c :: t) = .error (.markup fault) := by
  rw [resume, tokensFrom]
  split
  · next he =>
    cases he.symm.trans h
    rfl
  · next ho => cases ho.symm.trans h

theorem read_unclosed {name : Text} {c : Char} (hend : ';' ∉ name) (hc : c = '&' ∨ c = '<') (rest : Text) :
    Token.read '&' (name ++ c :: rest) = .error .unclosedReference := by
  have hstop : ∃ d behind, d ≠ ';' ∧
      (name ++ c :: rest).dropWhile (fun x => !(x == ';' || x == '&' || x == '<')) = d :: behind := by
    induction name with
    | nil => rcases hc with rfl | rfl <;> exact ⟨_, rest, by decide, rfl⟩
    | cons x xs ih =>
      rw [List.mem_cons, not_or] at hend
      rw [List.cons_append, List.dropWhile_cons]
      split
      · exact ih hend.2
      · exact ⟨x, _, Ne.symm hend.1, rfl⟩
  obtain ⟨d, behind, hd, hstop⟩ := hstop
  rw [Token.read, if_neg (by decide), if_pos rfl, Token.readReference, hstop]
  split
  · next heq => exact absurd (List.cons.inj heq).1 hd
  · rfl

theorem exists_decodes_of_resume {s : Text} {b : Builder} {offset : Nat} {d : Document} (hs : '<' ∉ s)
    (h : resume place names b offset (s ++ '<' :: rest) = .ok d) : ∃ content, Decodes s content := by
  -- On the length: a reference is read as a whole.
  induction hn : s.length using Nat.strong_induction_on generalizing s b offset with
  | _ n ih =>
  cases s with
  | nil => exact ⟨[], .nil⟩
  | cons c t =>
    rw [List.mem_cons, not_or] at hs
    by_cases hc : c = '&'
    · subst hc
      rw [List.cons_append] at h
      by_cases hend : ';' ∈ t
      · obtain ⟨name, after, rfl, hname⟩ := List.eq_append_cons_of_mem hend
        rw [List.append_assoc, List.cons_append] at h
        by_cases hamp : '&' ∈ name
        · -- A reference that starts inside of another one is a fault.
          obtain ⟨before, behind, rfl, -⟩ := List.eq_append_cons_of_mem hamp
          rw [List.mem_append, not_or] at hname
          rw [List.append_assoc, List.cons_append, resume_fault (read_unclosed hname.1 (.inl rfl) _)] at h
          cases h
        · simp only [List.mem_append, List.mem_cons, not_or] at hs
          rw [resume_reference (read_reference hname hamp hs.2.1 _)] at h
          have hshorter : after.length < n := by
            simp only [← hn, List.length_cons, List.length_append]
            omega
          obtain ⟨content, hcontent⟩ := ih after.length hshorter hs.2.2.2 h rfl
          by_cases hrefers : ∃ c, Reference.Refers name c
          · obtain ⟨c, hrefers⟩ := hrefers
            exact ⟨c :: content, .reference hrefers hcontent⟩
          · exact ⟨_, .unknown hname hamp (not_exists.1 hrefers) hcontent⟩
      · rw [resume_fault (read_unclosed hend (.inr rfl) rest)] at h
        cases h
    · have htext : Token.isText c = true := by simp [Token.isText, hc, Ne.symm hs.1]
      rw [List.cons_append, resume_char htext] at h
      obtain ⟨content, hcontent⟩ := ih t.length (hn ▸ Nat.lt_succ_self _) hs.2 h rfl
      exact ⟨c :: content, .char hc hcontent⟩

theorem textContents_appendText (t : Text) (nodes : List Node) :
    Node.textContents (appendText t nodes) = Node.textContents nodes ++ t := by
  obtain ⟨-, h⟩ | ⟨front, before, rfl, h⟩ := appendText_cases t nodes
  · rw [h, Node.textContents_append]
    simp [Node.textContents, Node.textContent]
  · rw [h, Node.textContents_append, Node.textContents_append]
    simp [Node.textContents, Node.textContent]

theorem exists_foldl_addText (content : Text) (e : Element) (others : List Element) (root : Option Element) :
    ∃ nodes, Node.textContents nodes = Node.textContents e.children ++ content ∧
      content.foldl (fun b c => b.addText [c]) ⟨e :: others, root⟩ =
        (⟨⟨e.tag, nodes⟩ :: others, root⟩ : Builder) := by
  induction content generalizing e with
  | nil => exact ⟨e.children, (List.append_nil _).symm, rfl⟩
  | cons c cs ih =>
    obtain ⟨nodes, htext, hfold⟩ := ih ⟨e.tag, appendText [c] e.children⟩
    refine ⟨nodes, ?_, hfold⟩
    rw [htext, textContents_appendText, List.append_assoc, List.singleton_append]

end Markup

namespace Document

open Markup

variable {s : Text}

theorem parse_element (s : Text) :
    ∃ place behind tag, parse ("<a>" ++ s ++ "</a>") =
      resume place ["a"] ⟨[⟨tag, []⟩], none⟩ behind (s ++ "</a>") := by
  have hplain : PlainTag ⟨"a", [], ⟨0, 0⟩⟩ := ⟨by decide, by simp, by simp⟩
  have htag : TagText ⟨"a", [], ⟨0, 0⟩⟩ "a" := ⟨[], .nil rfl, rfl⟩
  have hparse := parse_eq_resume (.inl rfl : [] = [] ∨ [] = ['\ufeff'])
    (by simp : ∀ c ∈ ("<a>" ++ s ++ "</a>" : Text).head?, c ≠ '\ufeff')
  exact ⟨_, _, _, hparse.trans (resume_opening hplain htag)⟩

theorem parse_decodes {content : Text} (h : Reference.Decodes s content) (hs : '<' ∉ s) :
    ∃ d, parse ("<a>" ++ s ++ "</a>") = .ok d ∧ d.root.textContent = content := by
  obtain ⟨place, behind, tag, hparse⟩ := parse_element s
  obtain ⟨after, hresume⟩ := resume_decodes h hs place behind
  obtain ⟨nodes, htext, hfold⟩ := exists_foldl_addText content ⟨tag, []⟩ [] none
  have hattach : (⟨[], none⟩ : Builder).attach ⟨tag, nodes⟩ = .ok ⟨[], some ⟨tag, nodes⟩⟩ := rfl
  have hname : isPlainName "a" := by decide
  have hspace : ([] : Text).all isSpace := rfl
  refine ⟨⟨⟨tag, nodes⟩⟩, ?_, htext⟩
  rw [hparse, hresume, hfold]
  exact (resume_closing hname hspace hattach).trans (resume_nil place _ _)

theorem attributes_quoted (hs : '"' ∉ s) :
    attributes (' ' :: 'b' :: '=' :: '"' :: (s ++ ['"'])) = [(['b'], s)] := by
  have hspace : ([] : Text).all isSpace := rfl
  have hletters : ([] : Text).all isNameChar := rfl
  have hfirst : dropSpace (' ' :: 'b' :: '=' :: '"' :: (s ++ ['"'])) = 'b' :: '=' :: '"' :: (s ++ ['"']) := rfl
  have hkey : cutKey 'b' ('=' :: '"' :: (s ++ ['"'])) = (['b'], '=' :: '"' :: (s ++ ['"'])) :=
    cutKey_append hletters hspace _
  have hstep : attributeStep false ('=' :: '"' :: (s ++ ['"'])) = ⟨some s, true, []⟩ :=
    attributeStep_quoted hspace hs []
  have hnone (seen : List Text) : attributesFrom seen [] = [] := by
    rw [attributesFrom]
    rfl
  rw [attributes, attributesFrom]
  split
  · next hd => cases hfirst.symm.trans hd
  · next hd =>
    cases hfirst.symm.trans hd
    simp [hkey, hstep, hnone]

theorem parse_attribute (hs : '"' ∉ s) :
    ∃ d, parse ("<a b=\"" ++ s ++ "\"/>") = .ok d ∧ d.root.attr? "b" = some (Reference.decode s) := by
  have hpass : Passes ('a' :: ' ' :: 'b' :: '=' :: '"' :: (s ++ ['"'])) := by
    have hfront : Passes ['a', ' ', 'b', '='] :=
      passes_of_all (p := fun c => isNameChar c || isSpace c || c == '=') (by decide) (by decide)
    exact hfront.append (passes_quoted hs)
  have htext : ("<a b=\"" ++ s ++ "\"/>" : Text) =
      '<' :: ('a' :: ' ' :: 'b' :: '=' :: '"' :: (s ++ ['"']) ++ '/' :: '>' :: []) := by simp
  have htag (position : Position) : startTag position ('a' :: ' ' :: 'b' :: '=' :: '"' :: (s ++ ['"'])) =
      ⟨['a'], [(['b'], Reference.decode s)], position⟩ := by
    have hword : dropWord ('a' :: ' ' :: 'b' :: '=' :: '"' :: (s ++ ['"'])) =
        ' ' :: 'b' :: '=' :: '"' :: (s ++ ['"']) := rfl
    rw [startTag, hword, attributes_quoted hs]
    rfl
  have hparse := parse_eq_resume (.inl rfl : [] = [] ∨ [] = ['\ufeff'])
    (by simp : ∀ c ∈ ("<a b=\"" ++ s ++ "\"/>" : Text).head?, c ≠ '\ufeff')
  rw [htext] at hparse
  rw [htext]
  refine ⟨_, hparse.trans ((resume_empty_of_read (read_empty_of_passes (by decide) hpass []) rfl).trans
    (resume_nil _ _ _)), ?_⟩
  rw [htag]
  rfl

theorem references_read_alike {d : Document} (hs : '<' ∉ s) (h : parse ("<a>" ++ s ++ "</a>") = .ok d) :
    d.root.textContent = Reference.decode s ∧
      (∀ content, Reference.Decodes s content ↔ content = Reference.decode s) ∧
      ('"' ∉ s → ∃ tagged, parse ("<a b=\"" ++ s ++ "\"/>") = .ok tagged ∧
        tagged.root.attr? "b" = some d.root.textContent) := by
  obtain ⟨place, behind, tag, hparse⟩ := parse_element s
  obtain ⟨content, hcontent⟩ := exists_decodes_of_resume hs (hparse.symm.trans h)
  obtain ⟨read, hread, htext⟩ := parse_decodes hcontent hs
  obtain rfl : read = d := Except.ok.inj (hread.symm.trans h)
  have hdecode := hcontent.decode_eq
  refine ⟨htext.trans hdecode.symm, ?_, ?_⟩
  · intro other
    constructor
    · intro hother
      exact hother.decode_eq.symm
    · rintro rfl
      rwa [hdecode]
  · intro hquote
    rw [htext, ← hdecode]
    exact parse_attribute hquote

theorem references_read_alike_mixed :
    ∃ d, '<' ∉ ("&amp;lt;&;&x;&#x41;" : Text) ∧
      parse ("<a>" ++ "&amp;lt;&;&x;&#x41;" ++ "</a>") = .ok d ∧
      d.root.textContent = "&lt;&;&x;A" ∧ Reference.decode "&amp;lt;&;&x;&#x41;" = "&lt;&;&x;A" := by
  have hletter : Reference.Decodes "&#x41;" "A" :=
    .reference (Reference.resolve?_eq_some_iff.1 (by decide : Reference.resolve? "#x41" = some 'A')) .nil
  have hunknown : Reference.Decodes "&x;&#x41;" "&x;A" :=
    .unknown (by decide) (by decide)
      (Reference.resolve?_eq_none_iff.1 (by decide : Reference.resolve? "x" = none)) hletter
  have hnameless : Reference.Decodes "&;&x;&#x41;" "&;&x;A" :=
    .unknown (by decide) (by decide)
      (Reference.resolve?_eq_none_iff.1 (by decide : Reference.resolve? "" = none)) hunknown
  have hall : Reference.Decodes "&amp;lt;&;&x;&#x41;" "&lt;&;&x;A" :=
    .reference (.named .ampersand) (.char (by decide) (.char (by decide) (.char (by decide) hnameless)))
  have hless : '<' ∉ ("&amp;lt;&;&x;&#x41;" : Text) := by decide
  obtain ⟨d, hparse, htext⟩ := parse_decodes hall hless
  obtain ⟨halike, -, -⟩ := references_read_alike hless hparse
  exact ⟨d, hless, hparse, htext, halike.symm.trans htext⟩

theorem signed_number_replaced :
    (∀ c, ¬ Reference.Names "#+65" c) ∧
      ∃ d, parse ("<a>" ++ "&#+65;" ++ "</a>") = .ok d ∧ d.root.textContent = "A" ∧
        Reference.decode "&#+65;" = "A" := by
  have hdecodes : Reference.Decodes "&#+65;" "A" :=
    .reference (Reference.resolve?_eq_some_iff.1 (by decide : Reference.resolve? "#+65" = some 'A')) .nil
  obtain ⟨d, hparse, htext⟩ := parse_decodes hdecodes (by decide)
  refine ⟨?_, d, hparse, htext, hdecodes.decode_eq⟩
  intro c hc
  exact Reference.not_mem_of_names hc (by decide : Reference.isNameLetter '+' = false) (by decide)

end Document

end Docmark
