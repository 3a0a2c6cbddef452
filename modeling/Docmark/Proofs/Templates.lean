import Docmark.Proofs.Spelling
import Docmark.Text.Template

namespace Docmark

namespace Template

theorem pieces_append {s : Text} (h : '{' ∉ s) (t : Text) :
    pieces (s ++ t) = s.map .char ++ pieces t := by
  induction s with
  | nil => rfl
  | cons c s ih =>
    rw [List.mem_cons, not_or] at h
    rw [List.cons_append, pieces, if_neg (Ne.symm h.1), ih h.2, List.map_cons, List.cons_append]

theorem slot?_append {digits : Text} (hne : digits ≠ []) (hd : ∀ c ∈ digits, c.isDigit = true)
    (t : Text) : slot? (digits ++ '}' :: t) = some (number digits, t) := by
  have hstop : ∀ c ∈ ('}' :: t).head?, c.isDigit = false := by
    rintro c ⟨⟩
    rfl
  obtain ⟨d, ds, rfl⟩ := List.exists_cons_of_ne_nil hne
  rw [slot?, Text.takeWhile_append hd hstop, Text.dropWhile_append hd hstop]
  rfl

end Template

theorem fill_append {s : Text} (h : '{' ∉ s) (t : Text) (values : List Text) :
    fill (s ++ t) values = s ++ fill t values := by
  rw [fill, fill, Template.pieces_append h, List.flatMap_append, List.flatMap_map]
  congr 1
  exact List.flatMap_singleton' s

theorem fill_slot {digits : Text} (hne : digits ≠ []) (hd : ∀ c ∈ digits, c.isDigit = true)
    (hn : Template.number digits < UInt64.size) (t : Text) (values : List Text) :
    fill ('{' :: (digits ++ '}' :: t)) values =
      values.getD (Template.number digits) [] ++ fill t values := by
  have hp : Template.pieces ('{' :: (digits ++ '}' :: t)) =
      .slot (Template.number digits) :: Template.pieces t := by
    rw [Template.pieces, if_pos rfl]
    split
    · next hs =>
      rw [Template.slot?_append hne hd] at hs
      cases hs
      rfl
    · next hs =>
      rw [Template.slot?_append hne hd] at hs
      cases hs
  rw [fill, hp, List.flatMap_cons, Piece.value, if_pos hn, fill]

end Docmark
