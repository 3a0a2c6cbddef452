import Docmark.Member.Id
import Docmark.Proofs.Spelling

namespace Docmark

namespace Params

theorem splitFrom_ne_nil (depth : Nat) (t : Text) : splitFrom depth t ≠ [] := by
  cases t with
  | nil => exact List.cons_ne_nil _ _
  | cons c cs =>
    rw [splitFrom]
    split
    · exact List.cons_ne_nil _ _
    · cases splitFrom (depthAfter depth c) cs <;> exact List.cons_ne_nil _ _

theorem joinWith_consFirst {pieces : List Text} (h : pieces ≠ []) (c : Char) :
    Text.joinWith "," (consFirst c pieces) = c :: Text.joinWith "," pieces := by
  cases pieces with
  | nil => exact absurd rfl h
  | cons piece pieces =>
    cases pieces with
    | nil => simp [consFirst]
    | cons next more => simp [consFirst]

theorem joinWith_splitFrom (depth : Nat) (t : Text) : Text.joinWith "," (splitFrom depth t) = t := by
  induction t generalizing depth with
  | nil => rfl
  | cons c cs ih =>
    rw [splitFrom]
    split
    · next h =>
      obtain ⟨next, more, hs⟩ := List.exists_cons_of_ne_nil (splitFrom_ne_nil 0 cs)
      have hjoin := ih 0
      rw [hs] at hjoin ⊢
      rw [Text.joinWith_cons_cons, hjoin, h.1]
      rfl
    · rw [joinWith_consFirst (splitFrom_ne_nil _ cs), ih]

theorem joinWith_split {t : Text} (h : Text.allBlank t = false) : Text.joinWith "," (split t) = t := by
  rw [split, if_neg (h ▸ Bool.false_ne_true), joinWith_splitFrom]

end Params

namespace MemberId

structure Spelling where
  letter : Char
  name : Text
  list : Option (Text × Text)

namespace Spelling

def behind : Option (Text × Text) → Text
  | none => []
  | some (inner, tail) => "(" ++ inner ++ ")" ++ tail

def text (s : Spelling) : Text :=
  s.letter :: ':' :: (s.name ++ behind s.list)

/-- Without a list there are no parentheses at all. The list starts at the first opening one and ends
at the last closing one, and only the return type of a conversion follows it. -/
inductive WellFormed (kind : Kind) : Spelling → Prop
  | bare {letter : Char} {name : Text} (hletter : kind.Announces letter) (hname : name ≠ [])
    (ho : '(' ∉ name) (hc : ')' ∉ name) : WellFormed kind ⟨letter, name, none⟩
  | listed {letter : Char} {name inner tail : Text} (hletter : kind.Announces letter)
    (hname : name ≠ []) (ho : '(' ∉ name) (hc : ')' ∉ tail)
    (htail : tail = [] ∨ ("~" : Text) <+: tail) : WellFormed kind ⟨letter, name, some (inner, tail)⟩

variable {kind : Kind} {s : Spelling}

def params (s : Spelling) : Option (List Text) :=
  s.list.map fun list => Params.split list.1

theorem WellFormed.announces (h : s.WellFormed kind) : kind.Announces s.letter := by
  cases h <;> assumption

theorem WellFormed.name_ne_nil (h : s.WellFormed kind) : s.name ≠ [] := by
  cases h <;> assumption

theorem WellFormed.not_mem_name (h : s.WellFormed kind) : '(' ∉ s.name := by
  cases h <;> assumption

theorem isEmpty_or_tilde_iff {tail : Text} :
    (tail.isEmpty || tail.head? = some '~') = true ↔ tail = [] ∨ ("~" : Text) <+: tail := by
  cases tail with
  | nil => simp
  | cons c tail => simp [List.cons_prefix_cons, eq_comm]

theorem WellFormed.splitBody? (h : s.WellFormed kind) :
    splitBody? (s.name ++ behind s.list) = some (s.name, s.params) := by
  cases h with
  | bare hletter hname ho hc =>
    rw [behind, List.append_nil, MemberId.splitBody?, Text.cutFirst?_eq_none.2 ho]
    exact if_neg hc
  | @listed letter name inner tail hletter hname ho hc htail =>
    have hbehind : behind (some (inner, tail)) = '(' :: (inner ++ ')' :: tail) :=
      congrArg ('(' :: ·) (List.append_assoc inner [')'] tail)
    rw [hbehind, MemberId.splitBody?, Text.cutFirst?_append ho]
    dsimp only
    rw [Text.cutLast?_append hc]
    exact if_pos (isEmpty_or_tilde_iff.2 htail)

theorem WellFormed.parse? (h : s.WellFormed kind) :
    parse? s.text = some ⟨kind, s.name, s.params, s.text⟩ := by
  rw [text, MemberId.parse?, Kind.ofLetter?_eq_some_iff.2 h.announces, h.splitBody?]
  exact if_neg fun hempty => h.name_ne_nil (List.isEmpty_iff.1 hempty)

end Spelling

open Spelling

variable {raw : Text} {id : MemberId}

theorem eq_of_splitBody? {body name : Text} {params : Option (List Text)}
    (h : splitBody? body = some (name, params)) :
    (body = name ∧ '(' ∉ name ∧ ')' ∉ name) ∨
      ∃ inner tail, body = name ++ behind (some (inner, tail)) ∧ '(' ∉ name ∧ ')' ∉ tail ∧
        (tail = [] ∨ ("~" : Text) <+: tail) := by
  unfold splitBody? at h
  split at h
  · next hcut =>
    rw [Option.ite_none_left_eq_some, Option.some.injEq, Prod.mk.injEq] at h
    obtain ⟨hc, rfl, -⟩ := h
    exact .inl ⟨rfl, Text.cutFirst?_eq_none.1 hcut, hc⟩
  · next rest hopen =>
    split at h
    · cases h
    · next inner tail hclose =>
      rw [Option.ite_none_right_eq_some, Option.some.injEq, Prod.mk.injEq] at h
      obtain ⟨htail, rfl, -⟩ := h
      obtain ⟨rfl, ho⟩ := Text.eq_of_cutFirst? hopen
      obtain ⟨rfl, hc⟩ := Text.eq_of_cutLast? hclose
      exact .inr ⟨inner, tail, by simp [behind], ho, hc, isEmpty_or_tilde_iff.1 htail⟩

theorem exists_spelling (h : parse? raw = some id) :
    ∃ s : Spelling, s.WellFormed id.kind ∧ s.text = raw := by
  unfold parse? at h
  split at h
  · next letter body =>
    simp only [Option.bind_eq_bind, Option.bind_eq_some_iff, Prod.exists,
      Option.ite_none_left_eq_some, Option.some.injEq] at h
    obtain ⟨kind, hletter, name, params, hsplit, hname, rfl⟩ := h
    rw [Kind.ofLetter?_eq_some_iff] at hletter
    have hne : name ≠ [] := fun hnil => hname (List.isEmpty_iff.2 hnil)
    obtain ⟨rfl, ho, hc⟩ | ⟨inner, tail, rfl, ho, hc, htail⟩ := eq_of_splitBody? hsplit
    · exact ⟨⟨letter, body, none⟩, .bare hletter hne ho hc, by simp [text, behind]⟩
    · exact ⟨⟨letter, name, some (inner, tail)⟩, .listed hletter hne ho hc htail, rfl⟩
  · cases h

theorem name_eq_of_mem (h : '.' ∈ id.name) : id.name = id.declaringType ++ "." ++ id.memberName := by
  rw [declaringType, memberName, Text.afterLast]
  cases hcut : Text.cutLast? '.' id.name with
  | none => exact absurd h (Text.cutLast?_eq_none.1 hcut)
  | some cut => simpa using (Text.eq_of_cutLast? hcut).1

theorem not_mem_memberName (id : MemberId) : '.' ∉ id.memberName := by
  rw [memberName, Text.afterLast]
  cases hcut : Text.cutLast? '.' id.name with
  | none => exact Text.cutLast?_eq_none.1 hcut
  | some cut => exact (Text.eq_of_cutLast? hcut).2

theorem memberName_eq_of_not_mem (h : '.' ∉ id.name) : id.memberName = id.name := by
  rw [memberName, Text.afterLast, Text.cutLast?_eq_none.2 h]

/-- What an identifier still tells of its spelling: all but the case of the letter, a blank list and
what a conversion returns. -/
structure Recovers (id : MemberId) (kind : Kind) (s : Spelling) : Prop where
  kind_eq : id.kind = kind
  name_eq : id.name = s.name
  qualified : '.' ∈ s.name → s.name = id.declaringType ++ "." ++ id.memberName
  unqualified : '.' ∉ id.memberName
  bare : s.list = none → id.params = none
  blank : ∀ inner tail, s.list = some (inner, tail) → Text.allBlank inner = true → id.params = some []
  joined : ∀ inner tail, s.list = some (inner, tail) → Text.allBlank inner = false →
    ∃ params, id.params = some params ∧ Text.joinWith "," params = inner
  signature : ∀ inner tail, s.list = some (inner, tail) → Text.allBlank inner = false →
    ∃ opening, s.text = s.letter :: ':' :: (opening ++ id.signature ++ tail) ∧
      opening = if '.' ∈ s.name then id.declaringType ++ "." else []

theorem recovers_of_text {kind : Kind} {s : Spelling} (h : s.WellFormed kind)
    (hid : parse? s.text = some id) : id.Recovers kind s := by
  have hparts := Option.some.inj (hid.symm.trans h.parse?)
  have hname : id.name = s.name := congrArg MemberId.name hparts
  have hparams : id.params = s.params := congrArg MemberId.params hparts
  have hdotted (hdot : '.' ∈ s.name) : s.name = id.declaringType ++ "." ++ id.memberName :=
    hname ▸ name_eq_of_mem (hname.symm ▸ hdot)
  have hlisted {inner tail : Text} (hlist : s.list = some (inner, tail)) :
      id.params = some (Params.split inner) := by
    rw [hparams, Spelling.params, hlist, Option.map_some]
  refine ⟨congrArg MemberId.kind hparts, hname, hdotted, not_mem_memberName id, ?_, ?_, ?_, ?_⟩
  · intro hnone
    rw [hparams, Spelling.params, hnone, Option.map_none]
  · intro inner tail hlist hblank
    rw [hlisted hlist, Params.split, if_pos hblank]
  · intro inner tail hlist hblank
    exact ⟨_, hlisted hlist, Params.joinWith_split hblank⟩
  · intro inner tail hlist hblank
    have hsignature : id.signature = id.memberName ++ behind (some (inner, [])) := by
      rw [signature, hlisted hlist]
      simp only [Params.joinWith_split hblank, behind, List.append_assoc, List.append_nil]
    have hopening : s.name =
        (if '.' ∈ s.name then id.declaringType ++ "." else []) ++ id.memberName := by
      split
      · next hdot => exact hdotted hdot
      · next hdot => exact hname ▸ (memberName_eq_of_not_mem (hname.symm ▸ hdot)).symm
    refine ⟨_, ?_, rfl⟩
    rw [text, hlist, hsignature]
    conv_lhs => rw [hopening]
    simp only [behind, List.append_assoc, List.append_nil]

theorem not_mem_name (h : parse? raw = some id) : '(' ∉ id.name := by
  obtain ⟨s, hspelled, rfl⟩ := exists_spelling h
  rw [(recovers_of_text hspelled h).name_eq]
  exact hspelled.not_mem_name

theorem read_from_spellings (raw : Text) :
    ((∃ id, parse? raw = some id) ↔ ∃ kind, ∃ s : Spelling, s.WellFormed kind ∧ s.text = raw) ∧
    ∀ (kind : Kind) (s : Spelling), s.WellFormed kind → s.text = raw →
      ∀ id, parse? raw = some id → id.Recovers kind s := by
  refine ⟨⟨?_, ?_⟩, ?_⟩
  · rintro ⟨id, h⟩
    exact ⟨id.kind, exists_spelling h⟩
  · rintro ⟨kind, s, h, rfl⟩
    exact ⟨_, h.parse?⟩
  · rintro kind s h rfl id hid
    exact recovers_of_text h hid

def conversion : Spelling :=
  ⟨'m', "A.B.op_Explicit", some ("C.D{E,F.G},H[0:,0:]", "~I.J")⟩

theorem read_from_spellings_conversion :
    conversion.WellFormed .method ∧
      conversion.text = "m:A.B.op_Explicit(C.D{E,F.G},H[0:,0:])~I.J" ∧
      ∃ id, parse? conversion.text = some id ∧ id.Recovers .method conversion := by
  have hspelled : conversion.WellFormed .method :=
    .listed (.inr (by decide)) (by decide) (by decide) (by decide) (.inr (by decide))
  have hid : parse? conversion.text = some ⟨.method, "A.B.op_Explicit",
      some ["C.D{E,F.G}", "H[0:,0:]"], conversion.text⟩ := by
    decide
  have hrecovers := (read_from_spellings conversion.text).2 .method conversion hspelled rfl _ hid
  exact ⟨hspelled, by decide, _, hid, hrecovers⟩

end MemberId

namespace Text

structure Balanced (t : Text) : Prop where
  opened : ∀ front, front <+: t → front.count ')' ≤ front.count '('
  closed : t.count ')' = t.count '('

variable {s t : Text}

theorem prefix_append_cases {front : Text} (h : front <+: s ++ t) :
    front <+: s ∨ ∃ rest, front = s ++ rest ∧ rest <+: t := by
  rcases List.prefix_or_prefix_of_prefix h (List.prefix_append s t) with hin | ⟨rest, rfl⟩
  · exact .inl hin
  · exact .inr ⟨rest, rfl, (List.prefix_append_right_inj s).1 h⟩

theorem balanced_nil : Balanced [] :=
  ⟨fun _ hfront => List.prefix_nil.1 hfront ▸ Nat.le_refl _, rfl⟩

theorem balanced_append_of_not_mem_left (h : '(' ∉ s) : Balanced (s ++ t) ↔ ')' ∉ s ∧ Balanced t := by
  have hs := List.count_eq_zero.2 h
  constructor
  · intro hb
    have hnone := hb.opened s (List.prefix_append s t)
    have hclosed := hb.closed
    simp only [List.count_append] at hclosed
    refine ⟨List.count_eq_zero.1 (by omega), ?_, by omega⟩
    intro front hfront
    have := hb.opened (s ++ front) ((List.prefix_append_right_inj s).2 hfront)
    simp only [List.count_append] at this
    omega
  · rintro ⟨hc, hb⟩
    have hs' := List.count_eq_zero.2 hc
    refine ⟨?_, by simp only [List.count_append, hs, hs', hb.closed]⟩
    intro front hfront
    rcases prefix_append_cases hfront with hin | ⟨rest, rfl, hrest⟩
    · exact List.count_eq_zero.2 (fun hmem => hc (hin.subset hmem)) ▸ Nat.zero_le _
    · simp only [List.count_append, hs, hs', Nat.zero_add]
      exact hb.opened rest hrest

theorem balanced_append_of_not_mem_right (h : ')' ∉ t) : Balanced (s ++ t) ↔ Balanced s ∧ '(' ∉ t := by
  have ht := List.count_eq_zero.2 h
  constructor
  · intro hb
    have hin := hb.opened s (List.prefix_append s t)
    have hclosed := hb.closed
    simp only [List.count_append] at hclosed
    refine ⟨⟨?_, by omega⟩, List.count_eq_zero.1 (by omega)⟩
    intro front hfront
    exact hb.opened front (hfront.trans (List.prefix_append s t))
  · rintro ⟨hb, ho⟩
    have ht' := List.count_eq_zero.2 ho
    refine ⟨?_, by simp only [List.count_append, ht, ht', hb.closed]⟩
    intro front hfront
    rcases prefix_append_cases hfront with hin | ⟨rest, rfl, hrest⟩
    · exact hb.opened front hin
    · have hnone := List.count_eq_zero.2 (fun hmem => h (hrest.subset hmem))
      rw [List.count_append, hnone, List.count_append, hb.closed]
      exact Nat.le_add_right _ _

end Text

theorem Kind.Announces.ne_paren {kind : Kind} {c : Char} (h : kind.Announces c) :
    '(' ≠ c ∧ ')' ≠ c := by
  rcases h with rfl | rfl <;> cases kind <;> decide

namespace MemberId

open Spelling

/-- Where the parentheses of a text that is read are not balanced: a closing one in the name, an
opening one behind the list, or a list that is not balanced itself. -/
theorem parentheses_balanced_iff {raw : Text} {id : MemberId} (h : parse? raw = some id) :
    ∃ s : Spelling, s.WellFormed id.kind ∧ s.text = raw ∧
      (raw.Balanced ↔ ∀ inner tail, s.list = some (inner, tail) →
        ')' ∉ s.name ∧ Text.Balanced ("(" ++ inner ++ ")") ∧ '(' ∉ tail) := by
  obtain ⟨s, hspelled, rfl⟩ := exists_spelling h
  refine ⟨s, hspelled, rfl, ?_⟩
  obtain ⟨hletter, hletter'⟩ := hspelled.announces.ne_paren
  cases hspelled with
  | @bare letter name hl hname ho hc =>
    have hnone : '(' ∉ letter :: ':' :: name := by simp [hletter, ho]
    have hnone' : ')' ∉ letter :: ':' :: name := by simp [hletter', hc]
    constructor
    · intro _ inner tail hlist
      cases hlist
    · intro _
      exact (Text.balanced_append_of_not_mem_left hnone).2 ⟨hnone', Text.balanced_nil⟩
  | @listed letter name inner tail hl hname ho hc htail =>
    have hnone : '(' ∉ letter :: ':' :: name := by simp [hletter, ho]
    have hclosing : ')' ∉ letter :: ':' :: name ↔ ')' ∉ name := by simp [hletter']
    have htext : text ⟨letter, name, some (inner, tail)⟩ =
        (letter :: ':' :: name) ++ (("(" ++ inner ++ ")") ++ tail) := rfl
    rw [htext, Text.balanced_append_of_not_mem_left hnone, Text.balanced_append_of_not_mem_right hc,
      hclosing]
    constructor
    · rintro h _ _ ⟨⟩
      exact h
    · intro h
      exact h inner tail rfl

theorem parentheses_balanced_iff_stray :
    parse? "M:A(B)C)" = some ⟨.method, "A", some ["B)C"], "M:A(B)C)"⟩ ∧
      ∃ s : Spelling, s.WellFormed .method ∧ s.text = "M:A(B)C)" ∧
        ¬ (Text.Balanced "M:A(B)C)") ∧ ∃ inner tail, s.list = some (inner, tail) ∧
          ¬ (')' ∉ s.name ∧ Text.Balanced ("(" ++ inner ++ ")") ∧ '(' ∉ tail) := by
  have hid : parse? "M:A(B)C)" = some ⟨.method, "A", some ["B)C"], "M:A(B)C)"⟩ := by decide
  have hstray : ¬ Text.Balanced "M:A(B)C)" := fun hb => absurd hb.closed (by decide)
  obtain ⟨s, hspelled, htext, hiff⟩ := parentheses_balanced_iff hid
  refine ⟨hid, s, hspelled, htext, hstray, ?_⟩
  simpa only [Classical.not_forall, exists_prop] using mt hiff.2 hstray

end MemberId
end Docmark
