import Docmark.Text.Basic

namespace Docmark

inductive Kind
  | type
  | method
  | property
  | field
  | event
  | scope
  deriving DecidableEq, Repr

namespace Kind

def letter : Kind → Char
  | type => 'T'
  | method => 'M'
  | property => 'P'
  | field => 'F'
  | event => 'E'
  | scope => 'N'

def ofUpper? : Char → Option Kind
  | 'T' => some type
  | 'M' => some method
  | 'P' => some property
  | 'F' => some field
  | 'E' => some event
  | 'N' => some scope
  | _ => none

def ofLetter? (c : Char) : Option Kind :=
  ofUpper? c.toUpper

def ofOpening? : Text → Option Kind
  | c :: ':' :: _ => ofLetter? c
  | _ => none

@[simp] theorem ofUpper?_letter (k : Kind) : ofUpper? k.letter = some k := by
  cases k <;> rfl

@[simp] theorem ofLetter?_letter (k : Kind) : ofLetter? k.letter = some k := by
  cases k <;> rfl

def Announces (kind : Kind) (c : Char) : Prop :=
  c = kind.letter ∨ c = kind.letter.toLower

theorem ofUpper?_eq_some_iff {c : Char} {kind : Kind} : ofUpper? c = some kind ↔ c = kind.letter := by
  constructor
  · intro h
    unfold ofUpper? at h
    split at h <;> cases h <;> rfl
  · rintro rfl
    exact ofUpper?_letter kind

theorem toUpper_eq_letter_iff {c : Char} {kind : Kind} :
    c.toUpper = kind.letter ↔ kind.Announces c := by
  have hascii : ∀ n < 123, (Char.ofNat n).toUpper = kind.letter → kind.Announces (Char.ofNat n) := by
    unfold Announces
    cases kind <;> decide +kernel
  constructor
  · intro h
    by_cases hc : c.toNat < 123
    · rw [← Char.ofNat_toNat c] at h ⊢
      exact hascii c.toNat hc h
    · have hz : ¬ c.val ≤ 'z'.val := fun hle => hc (Nat.lt_succ_of_le hle)
      have hsame : c.toUpper = c := dif_neg fun hrange => hz hrange.2
      exact .inl (hsame.symm.trans h)
  · rintro (rfl | rfl) <;> cases kind <;> rfl

theorem ofLetter?_eq_some_iff {c : Char} {kind : Kind} :
    ofLetter? c = some kind ↔ kind.Announces c := by
  rw [ofLetter?, ofUpper?_eq_some_iff, toUpper_eq_letter_iff]

end Kind
end Docmark
