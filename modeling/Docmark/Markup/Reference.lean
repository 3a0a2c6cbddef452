import Docmark.Text.Number

namespace Docmark.Reference

/-- The number that one or more digits spell; a plus sign may stand in front. -/
def number? (base : Nat) (t : Text) : Option Nat :=
  let digits := if t.head? = some '+' then t.tail else t
  if digits.isEmpty then none else Text.numberFrom? base 0 digits

def char? (n : Nat) : Option Char :=
  if n.isValidChar then some (Char.ofNat n) else none

def resolve? (name : Text) : Option Char :=
  if name = "apos" then some '\x27'
  else if name = "quot" then some '"'
  else if name = "lt" then some '<'
  else if name = "gt" then some '>'
  else if name = "amp" then some '&'
  else
    match name with
    | '#' :: 'x' :: digits => (number? 16 digits).bind char?
    | '#' :: digits => (number? 10 digits).bind char?
    | _ => none

def leading? (t : Text) : Option (Char × Text) :=
  match Text.cutFirst? ';' t with
  | some (name, after) => (resolve? name).map (·, after)
  | none => none

theorem length_of_leading? {t after : Text} {c : Char} (h : leading? t = some (c, after)) :
    after.length < t.length := by
  unfold leading? at h
  split at h
  · next hc =>
    simp only [Option.map_eq_some_iff, Prod.mk.injEq] at h
    obtain ⟨_, -, -, rfl⟩ := h
    have := Text.length_of_cutFirst? hc
    omega
  · simp at h

def decode : Text → Text
  | [] => []
  | c :: rest =>
    if c = '&' then
      match _h : leading? rest with
      | some (resolved, after) => resolved :: decode after
      | none => c :: decode rest
    else c :: decode rest
termination_by t => t.length
decreasing_by
  · have := length_of_leading? _h
    simp only [List.length_cons]
    omega
  · simp
  · simp

end Docmark.Reference
