import Docmark.Text.Basic

/-!
The attributes of a start tag. Faulty ones are passed over and the reading goes on behind them.
-/

namespace Docmark.Markup

def isSpace (c : Char) : Bool :=
  c == ' ' || c == '\n' || c == '\r' || c == '\t'

def isQuote (c : Char) : Bool :=
  c == '"' || c == '\x27'

def dropSpace (t : Text) : Text :=
  t.dropWhile isSpace

def dropWord (t : Text) : Text :=
  t.dropWhile (!isSpace ·)

def cutKey (first : Char) (more : Text) : Text × Text :=
  let inKey := fun c => !(c == '=' || isSpace c)
  (first :: more.takeWhile inKey, dropSpace (more.dropWhile inKey))

theorem length_dropSpace_le (t : Text) : (dropSpace t).length ≤ t.length :=
  (List.dropWhile_sublist _).length_le

theorem length_dropWord_le (t : Text) : (dropWord t).length ≤ t.length :=
  (List.dropWhile_sublist _).length_le

theorem length_cutKey_le (first : Char) (more : Text) :
    (cutKey first more).2.length ≤ more.length :=
  Nat.le_trans (length_dropSpace_le _) (List.dropWhile_sublist _).length_le

structure AttributeStep where
  value : Option Text
  counts : Bool
  rest : Text

/-- The text behind a key. A key seen before is passed over up to the next space, even one inside
its quotes; a value without quotes is passed over as well; a key without an equals sign is followed
by the next attribute. -/
def attributeStep (seen : Bool) : Text → AttributeStep
  | '=' :: after =>
    if seen then ⟨none, true, dropWord after⟩
    else
      match dropSpace after with
      | [] => ⟨none, true, []⟩
      | q :: inner =>
        if isQuote q then
          match Text.cutFirst? q inner with
          | some (value, rest) => ⟨some value, true, rest⟩
          | none => ⟨none, true, []⟩
        else ⟨none, true, dropWord inner⟩
  | rest => ⟨none, false, rest⟩

theorem length_attributeStep_le (seen : Bool) (t : Text) :
    (attributeStep seen t).rest.length ≤ t.length := by
  unfold attributeStep
  split
  · next after =>
    have hs := length_dropSpace_le after
    have hw := length_dropWord_le after
    split
    · simp only [List.length_cons]
      omega
    · split
      · simp
      · next q inner hd =>
        have hi := length_dropWord_le inner
        rw [hd, List.length_cons] at hs
        simp only [List.length_cons]
        split
        · split
          · next hc =>
            have := Text.length_of_cutFirst? hc
            simp only
            omega
          · simp
        · simp only
          omega
  · exact Nat.le_refl _

def attributesFrom (seen : List Text) (t : Text) : List (Text × Text) :=
  match _h : dropSpace t with
  | [] => []
  | first :: more =>
    let key := (cutKey first more).1
    let step := attributeStep (key ∈ seen) (cutKey first more).2
    let others := attributesFrom (if step.counts then key :: seen else seen) step.rest
    match step.value with
    | some value => (key, value) :: others
    | none => others
termination_by t.length
decreasing_by
  have hs := length_dropSpace_le t
  have hk := length_cutKey_le first more
  have ha := length_attributeStep_le (decide ((cutKey first more).1 ∈ seen)) (cutKey first more).2
  rw [_h, List.length_cons] at hs
  omega

def attributes (t : Text) : List (Text × Text) :=
  attributesFrom [] t

end Docmark.Markup
