import Mathlib.Data.List.Induction
import Mathlib.Tactic.IntervalCases
import Docmark.Markup.Reference
import Docmark.Proofs.Cuts

namespace Docmark

theorem Text.numberFrom?_append (base n : Nat) (s t : Text) :
    numberFrom? base n (s ++ t) = (numberFrom? base n s).bind (numberFrom? base · t) := by
  induction s generalizing n with
  | nil => rfl
  | cons c cs ih => simp [numberFrom?, ih, Option.bind_assoc]

namespace Reference

def DigitOf (v : Nat) (c : Char) : Prop :=
  c = v.digitChar ∨ c = v.digitChar.toUpper

instance (v : Nat) (c : Char) : Decidable (DigitOf v c) :=
  inferInstanceAs (Decidable (_ ∨ _))

inductive Numeral (base : Nat) : Text → Nat → Prop
  | digit {v : Nat} {c : Char} : v < base → DigitOf v c → Numeral base [c] v
  | more {t : Text} {n v : Nat} {c : Char} :
    Numeral base t n → v < base → DigitOf v c → Numeral base (t ++ [c]) (base * n + v)

inductive Names : Text → Char → Prop
  | apostrophe : Names "apos" '\x27'
  | quote : Names "quot" '"'
  | less : Names "lt" '<'
  | greater : Names "gt" '>'
  | ampersand : Names "amp" '&'
  | decimal {digits : Text} {c : Char} : Numeral 10 digits c.toNat → Names ('#' :: digits) c
  | hexadecimal {digits : Text} {c : Char} :
    Numeral 16 digits c.toNat → Names ('#' :: 'x' :: digits) c

def isNameLetter (c : Char) : Bool :=
  c.isAlphanum || c == '#'

inductive Spells (plain : Char → Bool) : Text → Text → Prop
  | nil : Spells plain [] []
  | char {c : Char} {written content : Text} :
    plain c → Spells plain written content → Spells plain (c :: written) (c :: content)
  | reference {name : Text} {c : Char} {written content : Text} :
    Names name c → Spells plain written content →
      Spells plain ('&' :: name ++ ';' :: written) (c :: content)

theorem digit?_of_digitOf {base v : Nat} {c : Char} (hb : base ≤ 16) (hv : v < base)
    (hc : DigitOf v c) : Text.digit? base c = some v := by
  have h16 : v < 16 := by omega
  rcases hc with rfl | rfl <;> interval_cases v <;> simp [Text.digit?, Nat.digitChar, hv]

theorem isAlphanum_of_digitOf {v : Nat} {c : Char} (hv : v < 16) (hc : DigitOf v c) :
    c.isAlphanum = true := by
  rcases hc with rfl | rfl <;> interval_cases v <;> decide

theorem isDigit_of_digitOf {v : Nat} {c : Char} (hv : v < 10) (hc : DigitOf v c) :
    c.isDigit = true := by
  rcases hc with rfl | rfl <;> interval_cases v <;> decide

theorem digitOf_of_code {v : Nat} {c : Char} (hv : v < 16)
    (h : v < 10 ∧ c.toNat = v + 48 ∨ 10 ≤ v ∧ (c.toNat = v + 87 ∨ c.toNat = v + 55)) : DigitOf v c := by
  rw [← Char.ofNat_toNat c]
  rcases h with ⟨hten, hc⟩ | ⟨hten, hc | hc⟩ <;> rw [hc] <;> interval_cases v <;> decide

theorem digitOf_of_digit? {base v : Nat} {c : Char} (hb : base ≤ 16) (h : Text.digit? base c = some v) :
    v < base ∧ DigitOf v c := by
  rw [Text.digit?, Option.filter_eq_some_iff, decide_eq_true_eq] at h
  obtain ⟨hvalue, hv⟩ := h
  refine ⟨hv, digitOf_of_code (Nat.lt_of_lt_of_le hv hb) ?_⟩
  split at hvalue
  · next hdigit =>
    have hrange : 48 ≤ c.toNat ∧ c.toNat ≤ 57 := hdigit
    have hcode : c.toNat - 48 = v := Option.some.inj hvalue
    omega
  · split at hvalue
    · next hletter =>
      have hrange : 97 ≤ c.toNat ∧ c.toNat ≤ 122 := hletter
      have hcode : c.toNat - 97 + 10 = v := Option.some.inj hvalue
      omega
    · split at hvalue
      · next hletter =>
        have hrange : 65 ≤ c.toNat ∧ c.toNat ≤ 90 := hletter
        have hcode : c.toNat - 65 + 10 = v := Option.some.inj hvalue
        omega
      · cases hvalue

namespace Numeral

variable {base n : Nat} {digits : Text}

theorem numberFrom?_eq (h : Numeral base digits n) (hb : base ≤ 16) :
    Text.numberFrom? base 0 digits = some n := by
  induction h with
  | digit hv hc => simp [Text.numberFrom?, digit?_of_digitOf hb hv hc]
  | more _ hv hc ih =>
    rw [Text.numberFrom?_append, ih]
    simp [Text.numberFrom?, digit?_of_digitOf hb hv hc]

theorem ne_nil (h : Numeral base digits n) : digits ≠ [] := by
  cases h <;> simp

theorem forall_mem {p : Char → Prop} (h : Numeral base digits n)
    (hp : ∀ v c, v < base → DigitOf v c → p c) : ∀ c ∈ digits, p c := by
  induction h with
  | digit hv hc =>
    intro c hm
    rw [List.mem_singleton.1 hm]
    exact hp _ _ hv hc
  | more _ hv hc ih =>
    intro c hm
    rcases List.mem_append.1 hm with hm | hm
    · exact ih c hm
    · rw [List.mem_singleton.1 hm]
      exact hp _ _ hv hc

theorem isAlphanum (h : Numeral base digits n) (hb : base ≤ 16) :
    ∀ c ∈ digits, c.isAlphanum = true := by
  refine h.forall_mem ?_
  intro v c hv
  exact isAlphanum_of_digitOf (by omega)

theorem isDigit (h : Numeral 10 digits n) : ∀ c ∈ digits, c.isDigit = true := by
  refine h.forall_mem ?_
  intro v c hv
  exact isDigit_of_digitOf hv

theorem number?_eq (h : Numeral base digits n) (hb : base ≤ 16) : number? base digits = some n := by
  have hplus : digits.head? ≠ some '+' := by
    intro hhead
    have := h.isAlphanum hb '+' (List.mem_of_head? hhead)
    exact absurd this (by decide)
  unfold number?
  simp [hplus, h.ne_nil, h.numberFrom?_eq hb]

end Numeral

theorem numeral_of_numberFrom? {base n : Nat} {digits : Text} (hb : base ≤ 16) (hne : digits ≠ [])
    (h : Text.numberFrom? base 0 digits = some n) : Numeral base digits n := by
  induction digits using List.reverseRecOn generalizing n with
  | nil => exact absurd rfl hne
  | append_singleton before c ih =>
    rw [Text.numberFrom?_append, Option.bind_eq_some_iff] at h
    obtain ⟨m, hbefore, hlast⟩ := h
    obtain ⟨v, hdigit, hn⟩ := Option.bind_eq_some_iff.1 hlast
    obtain ⟨hv, hc⟩ := digitOf_of_digit? hb hdigit
    obtain rfl : base * m + v = n := Option.some.inj hn
    by_cases hempty : before = []
    · subst hempty
      obtain rfl : 0 = m := Option.some.inj hbefore
      rw [Nat.mul_zero, Nat.zero_add]
      exact .digit hv hc
    · exact .more (ih hempty hbefore) hv hc

theorem number?_eq_some_iff {base n : Nat} {t : Text} (hb : base ≤ 16) :
    number? base t = some n ↔ Numeral base t n ∨ ∃ digits, t = '+' :: digits ∧ Numeral base digits n := by
  constructor
  · intro h
    rw [number?, Option.ite_none_left_eq_some, List.isEmpty_iff] at h
    obtain ⟨hne, hnumber⟩ := h
    have hnumeral := numeral_of_numberFrom? hb hne hnumber
    split at hnumeral
    · next hplus =>
      obtain ⟨digits, rfl⟩ := List.head?_eq_some_iff.1 hplus
      exact .inr ⟨digits, rfl, hnumeral⟩
    · exact .inl hnumeral
  · rintro (h | ⟨digits, rfl, h⟩)
    · exact h.number?_eq hb
    · simp [number?, h.ne_nil, h.numberFrom?_eq hb]

theorem char?_toNat (c : Char) : char? c.toNat = some c := by
  have hv : c.toNat.isValidChar := c.valid
  rw [char?, if_pos hv, Char.ofNat_toNat]

theorem char?_eq_some_iff {n : Nat} {c : Char} : char? n = some c ↔ n = c.toNat := by
  constructor
  · intro h
    rw [char?, Option.ite_none_right_eq_some, Option.some.injEq] at h
    obtain ⟨hvalid, rfl⟩ := h
    rw [Char.ofNat, dif_pos hvalid]
    rfl
  · rintro rfl
    exact char?_toNat c

theorem resolve?_of_names {name : Text} {c : Char} (h : Names name c) : resolve? name = some c := by
  cases h with
  | apostrophe | quote | less | greater | ampersand => rfl
  | @decimal digits c hd =>
    have hn := hd.number?_eq (by omega)
    cases digits with
    | nil => exact absurd rfl hd.ne_nil
    | cons d ds =>
      have hx : d ≠ 'x' := by
        rintro rfl
        exact absurd (hd.isDigit 'x' List.mem_cons_self) (by decide)
      simp [resolve?, hx, hn, char?_toNat]
  | hexadecimal hd => simp [resolve?, hd.number?_eq (by omega), char?_toNat]

theorem isNameLetter_of_names {name : Text} {c : Char} (h : Names name c) :
    name.all isNameLetter = true := by
  cases h with
  | apostrophe | quote | less | greater | ampersand => decide
  | decimal hd =>
    rw [List.all_cons, Bool.and_eq_true, List.all_eq_true]
    refine ⟨by decide, ?_⟩
    intro x hx
    rw [isNameLetter, hd.isAlphanum (by omega) x hx, Bool.true_or]
  | hexadecimal hd =>
    rw [List.all_cons, List.all_cons, Bool.and_eq_true, Bool.and_eq_true, List.all_eq_true]
    refine ⟨by decide, by decide, ?_⟩
    intro x hx
    rw [isNameLetter, hd.isAlphanum (by omega) x hx, Bool.true_or]

theorem not_mem_of_names {name : Text} {c x : Char} (h : Names name c)
    (hx : isNameLetter x = false) : x ∉ name := by
  intro hm
  have hletter := List.all_eq_true.1 (isNameLetter_of_names h) x hm
  rw [hx] at hletter
  cases hletter

theorem leading?_append {name : Text} (h : ';' ∉ name) (behind : Text) :
    leading? (name ++ ';' :: behind) = (resolve? name).map (·, behind) := by
  rw [leading?, Text.cutFirst?_append h]

theorem decode_char {c : Char} (h : c ≠ '&') (t : Text) : decode (c :: t) = c :: decode t := by
  rw [decode, if_neg h]

theorem decode_resolved {name : Text} {c : Char} (h : ';' ∉ name) (hc : resolve? name = some c)
    (t : Text) : decode ('&' :: name ++ ';' :: t) = c :: decode t := by
  have hl : leading? (name ++ ';' :: t) = some (c, t) := by
    rw [leading?_append h, hc, Option.map_some]
  rw [List.cons_append, decode, if_pos rfl]
  split
  · next hs =>
    rw [hl, Option.some.injEq, Prod.mk.injEq] at hs
    rw [hs.1, hs.2]
  · next hs =>
    rw [hl] at hs
    cases hs

theorem decode_spells {plain : Char → Bool} (hp : plain '&' = false) {written content : Text}
    (h : Spells plain written content) : decode written = content := by
  induction h with
  | nil => rw [decode]
  | @char c _ _ hc _ ih =>
    have hamp : c ≠ '&' := by
      rintro rfl
      rw [hp] at hc
      cases hc
    rw [decode_char hamp, ih]
  | reference hn _ ih =>
    rw [decode_resolved (not_mem_of_names hn (by decide)) (resolve?_of_names hn), ih]

theorem not_mem_of_spells {plain : Char → Bool} {written content : Text} {x : Char}
    (h : Spells plain written content) (hp : plain x = false) (hx : isNameLetter x = false)
    (hamp : x ≠ '&') (hend : x ≠ ';') : x ∉ written := by
  induction h with
  | nil => exact List.not_mem_nil
  | @char c _ _ hc _ ih =>
    rw [List.mem_cons, not_or]
    refine ⟨?_, ih⟩
    rintro rfl
    rw [hp] at hc
    cases hc
  | reference hn _ ih =>
    simp only [List.cons_append, List.mem_cons, List.mem_append, not_or]
    exact ⟨hamp, not_mem_of_names hn hx, hend, ih⟩

end Reference
end Docmark
