import Docmark.Text.Basic

/-!
Templates: text with numbered slots such as `{0}`. Values are put in once, from left to right, and
are never read as templates themselves.
-/

namespace Docmark

inductive Piece
  | char (c : Char)
  | slot (index : Nat)
  deriving DecidableEq, Repr

namespace Piece

def value (values : List Text) : Piece → Text
  | .char c => [c]
  | .slot index => if index < UInt64.size then values.getD index [] else []

end Piece

namespace Template

def number (digits : Text) : Nat :=
  digits.foldl (fun n d => 10 * n + (d.toNat - '0'.toNat)) 0

def slot? (t : Text) : Option (Nat × Text) :=
  match t.takeWhile Char.isDigit, t.dropWhile Char.isDigit with
  | d :: ds, '}' :: rest => some (number (d :: ds), rest)
  | _, _ => none

theorem length_of_slot? {t rest : Text} {n : Nat} (h : slot? t = some (n, rest)) :
    rest.length < t.length := by
  unfold slot? at h
  split at h
  · next hd =>
    simp only [Option.some.injEq, Prod.mk.injEq] at h
    obtain ⟨-, rfl⟩ := h
    have := (List.dropWhile_sublist Char.isDigit (l := t)).length_le
    simp [hd] at this
    omega
  · simp at h

/-- A `{` that opens no slot is kept, and reading goes on right after it. -/
def pieces : Text → List Piece
  | [] => []
  | c :: rest =>
    if c = '{' then
      match _hs : slot? rest with
      | some (index, after) => .slot index :: pieces after
      | none => .char c :: pieces rest
    else .char c :: pieces rest
termination_by t => t.length
decreasing_by
  · have := length_of_slot? _hs
    simp only [List.length_cons]
    omega
  · simp
  · simp

end Template

def fill (template : Text) (values : List Text) : Text :=
  (Template.pieces template).flatMap (Piece.value values)

end Docmark
