import Docmark.Json.Reader
import Docmark.Proofs.Results
import Docmark.Proofs.Spelling

namespace Docmark.Json

open Reference (Numeral)

namespace Quoted

inductive Escapes : Char → Char → Prop
  | quote : Escapes '"' '"'
  | backslash : Escapes '\\' '\\'
  | slash : Escapes '/' '/'
  | backspace : Escapes 'b' '\x08'
  | formFeed : Escapes 'f' '\x0c'
  | lineFeed : Escapes 'n' '\n'
  | carriageReturn : Escapes 'r' '\r'
  | tab : Escapes 't' '\t'

def IsPlain (c : Char) : Prop :=
  0x20 ≤ c.toNat ∧ c ≠ '"' ∧ c ≠ '\\'

inductive Written : List Part → Text → Prop
  | nil : Written [] []
  | plain {c : Char} {parts : List Part} {t : Text} :
    IsPlain c → Written parts t → Written (.char c :: parts) (c :: t)
  | escape {letter c : Char} {parts : List Part} {t : Text} :
    Escapes letter c → Written parts t → Written (.char c :: parts) ('\\' :: letter :: t)
  | code {a b c d : Char} {n : Nat} {parts : List Part} {t : Text} :
    Numeral 16 [a, b, c, d] n → Written parts t →
      Written (.ofCode n :: parts) ('\\' :: 'u' :: a :: b :: c :: d :: t)

theorem escaped?_eq_some_iff {letter c : Char} : escaped? letter = some c ↔ Escapes letter c := by
  constructor
  · intro h
    unfold escaped? at h
    split at h <;> cases h <;> constructor
  · intro h
    cases h <;> rfl

theorem scan_plain {c : Char} (h : IsPlain c) (t : Text) : scan (c :: t) = cons (.char c) (scan t) := by
  obtain ⟨hlow, hquote, hbackslash⟩ := h
  rw [scan, if_neg (Nat.not_lt.2 hlow)]
  all_goals
    intros
    simp_all

theorem scan_escape {letter c : Char} (h : Escapes letter c) (t : Text) :
    scan ('\\' :: letter :: t) = cons (.char c) (scan t) := by
  have hu : letter ≠ 'u' := by
    rintro rfl
    cases h
  rw [scan, escaped?_eq_some_iff.2 h]
  all_goals
    intros
    simp_all

theorem scan_code {a b c d : Char} {n : Nat} (h : Numeral 16 [a, b, c, d] n) (t : Text) :
    scan ('\\' :: 'u' :: a :: b :: c :: d :: t) = cons (.ofCode n) (scan t) := by
  rw [scan, h.numberFrom?_eq (by omega)]

theorem scan_written {parts : List Part} {t : Text} (h : Written parts t) (rest : Text) :
    scan (t ++ '"' :: rest) = (⟨parts, none⟩, rest) := by
  induction h with
  | nil => rfl
  | plain hc _ ih => rw [List.cons_append, scan_plain hc, ih, cons]
  | escape he _ ih => rw [List.cons_append, List.cons_append, scan_escape he, ih, cons]
  | code hn _ ih =>
    simp only [List.cons_append]
    rw [scan_code hn, ih, cons]

theorem cons_eq {p : Part} {q : Quoted × Text} {parts : List Part} {rest : Text}
    (h : cons p q = (⟨parts, none⟩, rest)) : ∃ more, parts = p :: more ∧ q = (⟨more, none⟩, rest) := by
  obtain ⟨⟨more, fault⟩, behind⟩ := q
  cases h
  exact ⟨more, rfl, rfl⟩

theorem written_of_scan {parts : List Part} {t rest : Text} (h : scan t = (⟨parts, none⟩, rest)) :
    ∃ written, t = written ++ '"' :: rest ∧ Written parts written := by
  fun_induction scan t generalizing parts with
  | case1 | case3 | case5 | case6 | case8 | case9 => cases h
  | case2 rest =>
    cases h
    exact ⟨[], rfl, .nil⟩
  | case4 a b c d t n hn ih =>
    obtain ⟨more, rfl, hmore⟩ := cons_eq h
    obtain ⟨written, rfl, hw⟩ := ih hmore
    have hnumeral := Reference.numeral_of_numberFrom? (by omega) (List.cons_ne_nil _ _) hn
    exact ⟨_, rfl, .code hnumeral hw⟩
  | case7 letter t _ _ c he ih =>
    obtain ⟨more, rfl, hmore⟩ := cons_eq h
    obtain ⟨written, rfl, hw⟩ := ih hmore
    exact ⟨_, rfl, .escape (escaped?_eq_some_iff.1 he) hw⟩
  | case10 c t hquote hend hcode hshort hescape hlow ih =>
    obtain ⟨more, rfl, hmore⟩ := cons_eq h
    obtain ⟨written, rfl, hw⟩ := ih hmore
    have hbackslash : c ≠ '\\' := by
      rintro rfl
      cases written with
      | nil => exact hescape _ _ rfl rfl
      | cons x xs => exact hescape _ _ rfl rfl
    exact ⟨_, rfl, .plain ⟨Nat.not_lt.1 hlow, hquote, hbackslash⟩ hw⟩

inductive Says : List Part → Text → Prop
  | nil : Says [] []
  | char {c : Char} {parts : List Part} {t : Text} : Says parts t → Says (.char c :: parts) (c :: t)
  | pair {h l : Nat} {parts : List Part} {t : Text} : Says parts t →
    Says (.high h :: .low l :: parts)
      (Char.ofNat (0x10000 + (h - 0xD800) * 0x400 + (l - 0xDC00)) :: t)

theorem readParts_eq_ok_iff {fault : Option Fault} {parts : List Part} {t : Text} :
    readParts fault parts = .ok t ↔ fault = none ∧ Says parts t := by
  constructor
  · intro h
    fun_induction readParts fault parts generalizing t with
    | case1 | case5 | case6 => cases h
    | case2 hnone =>
      cases h
      exact ⟨hnone, .nil⟩
    | case3 c parts ih =>
      obtain ⟨s, hs, rfl⟩ := map_eq_ok_iff.1 h
      exact ⟨(ih hs).1, .char (ih hs).2⟩
    | case4 h l parts ih =>
      obtain ⟨s, hs, rfl⟩ := map_eq_ok_iff.1 h
      exact ⟨(ih hs).1, .pair (ih hs).2⟩
  · rintro ⟨rfl, h⟩
    induction h with
    | nil => rfl
    | char _ ih => exact map_eq_ok_iff.2 ⟨_, ih, rfl⟩
    | pair _ ih => exact map_eq_ok_iff.2 ⟨_, ih, rfl⟩

theorem read_eq_ok_iff {q : Quoted} {t : Text} : q.read = .ok t ↔ q.fault = none ∧ Says q.parts t :=
  readParts_eq_ok_iff

def ofText (t : Text) : Quoted :=
  ⟨t.map .char, none⟩

theorem numeral_control {n : Nat} (h : n < 0x20) :
    Numeral 16 ['0', '0', Nat.digitChar (n / 16), Nat.digitChar (n % 16)] n := by
  have hzero : Numeral 16 ['0'] 0 := .digit (by omega) (.inl rfl)
  have hzeros : Numeral 16 ['0', '0'] (16 * 0 + 0) := .more hzero (by omega) (.inl rfl)
  have hhigh : Numeral 16 ['0', '0', Nat.digitChar (n / 16)] (16 * 0 + n / 16) :=
    .more hzeros (by omega) (.inl rfl)
  have hlow : Numeral 16 ['0', '0', Nat.digitChar (n / 16), Nat.digitChar (n % 16)]
      (16 * (16 * 0 + n / 16) + n % 16) := .more hhigh (by omega) (.inl rfl)
  rwa [Nat.mul_zero, Nat.zero_add, Nat.div_add_mod] at hlow

theorem ofCode_control {c : Char} (h : c.toNat < 0x20) : Part.ofCode c.toNat = .char c := by
  rw [Part.ofCode, if_neg (by omega), if_neg (by omega), Char.ofNat_toNat]

theorem written_escape {parts : List Part} {t : Text} (c : Char) (h : Written parts t) :
    Written (.char c :: parts) (escape c ++ t) := by
  unfold escape
  split_ifs with hquote hbackslash hbackspace hfeed hline hreturn htab hlow
  · exact .escape (hquote ▸ .quote) h
  · exact .escape (hbackslash ▸ .backslash) h
  · exact .escape (hbackspace ▸ .backspace) h
  · exact .escape (hfeed ▸ .formFeed) h
  · exact .escape (hline ▸ .lineFeed) h
  · exact .escape (hreturn ▸ .carriageReturn) h
  · exact .escape (htab ▸ .tab) h
  · rw [← ofCode_control hlow]
    exact .code (numeral_control hlow) h
  · exact .plain ⟨Nat.not_lt.1 hlow, hquote, hbackslash⟩ h

theorem written_chars (t : Text) : Written (t.map .char) (t.flatMap escape) := by
  induction t with
  | nil => exact .nil
  | cons c t ih => exact written_escape c ih

theorem says_chars (t : Text) : Says (t.map .char) t := by
  induction t with
  | nil => exact .nil
  | cons c t ih => exact .char ih

theorem read_ofText (t : Text) : (ofText t).read = .ok t :=
  read_eq_ok_iff.2 ⟨rfl, says_chars t⟩

end Quoted
end Docmark.Json
