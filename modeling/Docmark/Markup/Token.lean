import Docmark.Markup.Doctype
import Docmark.Markup.Fault

/-!
The pieces that a document falls into before tags are matched: tags, text, references and asides.
Every piece takes at least one character, so reading them ends.
-/

namespace Docmark.Markup

inductive Token
  | opening (content : Text)
  | empty (content : Text)
  | closing (content : Text)
  | text (content : Text)
  | cdata (content : Text)
  | reference (name : Text)
  | aside (content : Text)
  deriving DecidableEq, Repr

namespace Token

def source : Token → Text
  | opening content => '<' :: content ++ ['>']
  | empty content => '<' :: content ++ ['/', '>']
  | closing content => '<' :: '/' :: content ++ ['>']
  | text content => content
  | cdata content =>
    ['<', '!', '[', 'C', 'D', 'A', 'T', 'A', '['] ++ content ++ [']', ']', '>']
  | reference name => '&' :: name ++ [';']
  | aside content => '<' :: content ++ ['>']

def cutTag (quote : Option Char) : Text → Except Fault (Text × Text)
  | [] =>
    match quote with
    | none => .error .unclosedTag
    | some q => .error (if q = '"' then .unclosedDoubleQuote else .unclosedSingleQuote)
  | c :: cs =>
    if quote = none ∧ c = '>' then .ok ([], cs)
    else (cutTag (quoteAfter quote c) cs).map fun (before, after) => (c :: before, after)

theorem eq_of_cutTag {quote : Option Char} {t before after : Text}
    (h : cutTag quote t = .ok (before, after)) : t = before ++ '>' :: after := by
  induction t generalizing quote before with
  | nil => cases quote <;> simp [cutTag] at h
  | cons c cs ih =>
    simp only [cutTag] at h
    split at h
    · next hc =>
      simp only [Except.ok.injEq, Prod.mk.injEq] at h
      obtain ⟨rfl, rfl⟩ := h
      simp [hc.2]
    · cases ht : cutTag (quoteAfter quote c) cs with
      | error e => simp [ht, Except.map] at h
      | ok p =>
        obtain ⟨b, a⟩ := p
        simp only [ht, Except.map, Except.ok.injEq, Prod.mk.injEq] at h
        obtain ⟨rfl, rfl⟩ := h
        simp [ih ht]

def readDoctype (t : Text) : Except Fault (Token × Text) :=
  match cutDoctype? (.head none) t with
  | none => .error .unclosedDoctype
  | some (content, rest) =>
    match Text.dropOpening? "doctype" (Text.lowerAscii content) with
    | none => .error .unclosedDoctype
    | some name =>
      if name.all isSpace then .error .missingDoctypeName else .ok (.aside ('!' :: content), rest)

theorem eq_of_readDoctype {t rest : Text} {token : Token}
    (h : readDoctype t = .ok (token, rest)) :
    ∃ more, token.source = '<' :: '!' :: more ∧ t = more ++ rest := by
  unfold readDoctype at h
  repeat' split at h
  all_goals simp only [reduceCtorEq, Except.ok.injEq, Prod.mk.injEq] at h
  next hc _ _ _ _ =>
  obtain ⟨rfl, rfl⟩ := h
  exact ⟨_, rfl, by simp [eq_of_cutDoctype? hc]⟩

def readBang : Text → Except Fault (Token × Text)
  | '[' :: t =>
    match Text.cutAt? "]]>" t with
    | none => .error .unclosedCData
    | some (before, rest) =>
      match Text.dropOpening? "CDATA[" before with
      | none => .error .unclosedCData
      | some content => .ok (.cdata content, rest)
  | '-' :: '-' :: t =>
    match Text.cutAt? "-->" t with
    | none => .error .unclosedComment
    | some (before, rest) => .ok (.aside ('!' :: '-' :: '-' :: before ++ ['-', '-']), rest)
  | c :: t =>
    if c = '-' then .error .unclosedComment
    else if c = 'D' ∨ c = 'd' then readDoctype (c :: t)
    else .error .invalidBang
  | [] => .error .invalidBang

theorem eq_of_readBang {t rest : Text} {token : Token} (h : readBang t = .ok (token, rest)) :
    ∃ more, token.source = '<' :: '!' :: more ∧ t = more ++ rest := by
  unfold readBang at h
  split at h
  · repeat' split at h
    all_goals simp only [reduceCtorEq, Except.ok.injEq, Prod.mk.injEq] at h
    next hc _ _ ho =>
    obtain ⟨rfl, rfl⟩ := h
    exact ⟨_, rfl, by simp [Text.eq_of_cutAt? hc, Text.dropOpening?_eq_some.1 ho]⟩
  · split at h
    · simp at h
    · next hc =>
      simp only [Except.ok.injEq, Prod.mk.injEq] at h
      obtain ⟨rfl, rfl⟩ := h
      exact ⟨_, rfl, by simp [Text.eq_of_cutAt? hc]⟩
  · split at h
    · simp at h
    · split at h
      · exact eq_of_readDoctype h
      · simp at h
  · simp at h

def unendedInstruction (t : Text) : Fault :=
  match Text.dropOpening? "xml" t with
  | some [] => .unclosedDeclaration
  | some (c :: _) => if isSpace c || c == '?' then .unclosedDeclaration else .unclosedInstruction
  | none => .unclosedInstruction

def readInstruction (t : Text) : Except Fault (Token × Text) :=
  match t with
  | '>' :: _ => .error .unclosedInstruction
  | _ =>
    match Text.cutAt? "?>" t with
    | none => .error (unendedInstruction t)
    | some (before, rest) => .ok (.aside ('?' :: before ++ ['?']), rest)

theorem eq_of_readInstruction {t rest : Text} {token : Token}
    (h : readInstruction t = .ok (token, rest)) :
    ∃ more, token.source = '<' :: '?' :: more ∧ t = more ++ rest := by
  unfold readInstruction at h
  split at h
  · simp at h
  · split at h
    · simp at h
    · next hc =>
      simp only [Except.ok.injEq, Prod.mk.injEq] at h
      obtain ⟨rfl, rfl⟩ := h
      exact ⟨_, rfl, by simp [Text.eq_of_cutAt? hc]⟩

def ofTag (content : Text) : Token :=
  match Text.dropEnding? "/" content with
  | some inner => .empty inner
  | none => .opening content

theorem source_ofTag (content : Text) : (ofTag content).source = '<' :: content ++ ['>'] := by
  unfold ofTag
  split
  · next he => simp [Text.dropEnding?_eq_some.1 he, source]
  · rfl

def readMarkup : Text → Except Fault (Token × Text)
  | '!' :: t => readBang t
  | '?' :: t => readInstruction t
  | '/' :: t => (cutTag none t).map fun (content, rest) => (.closing content, rest)
  | t => (cutTag none t).map fun (content, rest) => (ofTag content, rest)

theorem eq_of_map_cutTag {quote : Option Char} {t rest : Text} {token : Token} {f : Text → Token}
    (h : ((cutTag quote t).map fun (content, rest) => (f content, rest)) = .ok (token, rest)) :
    ∃ content, token = f content ∧ t = content ++ '>' :: rest := by
  cases ht : cutTag quote t with
  | error e => simp [ht, Except.map] at h
  | ok p =>
    simp only [ht, Except.map, Except.ok.injEq, Prod.mk.injEq] at h
    obtain ⟨rfl, rfl⟩ := h
    exact ⟨p.1, rfl, eq_of_cutTag ht⟩

theorem eq_of_readMarkup {t rest : Text} {token : Token}
    (h : readMarkup t = .ok (token, rest)) :
    ∃ more, token.source = '<' :: more ∧ t = more ++ rest := by
  unfold readMarkup at h
  split at h
  · obtain ⟨more, hs, rfl⟩ := eq_of_readBang h
    exact ⟨_, hs, rfl⟩
  · obtain ⟨more, hs, rfl⟩ := eq_of_readInstruction h
    exact ⟨_, hs, rfl⟩
  · obtain ⟨content, rfl, rfl⟩ := eq_of_map_cutTag h
    exact ⟨_, rfl, by simp⟩
  · obtain ⟨content, rfl, rfl⟩ := eq_of_map_cutTag h
    exact ⟨_, source_ofTag content, by simp⟩

def readReference (t : Text) : Except Fault (Token × Text) :=
  let inName := fun c => !(c == ';' || c == '&' || c == '<')
  match t.dropWhile inName with
  | ';' :: rest => .ok (.reference (t.takeWhile inName), rest)
  | _ => .error .unclosedReference

theorem eq_of_readReference {t rest : Text} {token : Token}
    (h : readReference t = .ok (token, rest)) :
    ∃ more, token.source = '&' :: more ∧ t = more ++ rest := by
  unfold readReference at h
  simp only at h
  split at h
  · next hd =>
    simp only [Except.ok.injEq, Prod.mk.injEq] at h
    obtain ⟨rfl, rfl⟩ := h
    refine ⟨_, rfl, ?_⟩
    change t = (List.takeWhile _ t ++ [';']) ++ _
    rw [List.append_assoc, List.singleton_append, ← hd, List.takeWhile_append_dropWhile]
  · simp at h

def isText (c : Char) : Bool :=
  !(c == '<' || c == '&')

def read (c : Char) (t : Text) : Except Fault (Token × Text) :=
  if c = '<' then readMarkup t
  else if c = '&' then readReference t
  else .ok (.text (c :: t.takeWhile isText), t.dropWhile isText)

theorem eq_of_read {c : Char} {t rest : Text} {token : Token}
    (h : read c t = .ok (token, rest)) :
    ∃ more, token.source = c :: more ∧ t = more ++ rest := by
  unfold read at h
  split at h
  · next hc => exact hc ▸ eq_of_readMarkup h
  · split at h
    · next hc => exact hc ▸ eq_of_readReference h
    · simp only [Except.ok.injEq, Prod.mk.injEq] at h
      obtain ⟨rfl, rfl⟩ := h
      exact ⟨_, rfl, List.takeWhile_append_dropWhile.symm⟩

theorem length_of_read {c : Char} {t rest : Text} {token : Token}
    (h : read c t = .ok (token, rest)) : rest.length < (c :: t).length := by
  obtain ⟨more, -, rfl⟩ := eq_of_read h
  simp only [List.length_cons, List.length_append]
  omega

end Token

structure Reading (α : Type) where
  items : List α
  fault : Option Fault
  deriving DecidableEq, Repr

namespace Reading

def cons {α : Type} (item : α) (r : Reading α) : Reading α :=
  { r with items := item :: r.items }

end Reading

def tokensFrom (offset : Nat) : Text → Reading (Nat × Token)
  | [] => ⟨[], none⟩
  | c :: t =>
    match _h : Token.read c t with
    | .error fault => ⟨[], some fault⟩
    | .ok (token, rest) =>
      .cons (offset, token) (tokensFrom (offset + Text.byteSize token.source) rest)
termination_by t => t.length
decreasing_by exact Token.length_of_read _h

def tokens : Text → Reading (Nat × Token)
  | '\ufeff' :: t => tokensFrom 0 t
  | t => tokensFrom 0 t

end Docmark.Markup
