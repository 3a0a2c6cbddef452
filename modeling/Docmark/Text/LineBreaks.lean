import Docmark.Text.Basic

namespace Docmark.Text

def squeezeBreaks : Text → Text
  | '\n' :: '\n' :: '\n' :: rest => squeezeBreaks ('\n' :: '\n' :: rest)
  | c :: rest => c :: squeezeBreaks rest
  | [] => []

theorem squeezeBreaks_nil : squeezeBreaks [] = [] := rfl

theorem squeezeBreaks_three (t : Text) :
    squeezeBreaks ('\n' :: '\n' :: '\n' :: t) = squeezeBreaks ('\n' :: '\n' :: t) := rfl

theorem squeezeBreaks_cons_of_not_three {c : Char} {t : Text}
    (h : ∀ rest, c = '\n' → t = '\n' :: '\n' :: rest → False) :
    squeezeBreaks (c :: t) = c :: squeezeBreaks t := by
  rw [squeezeBreaks]
  exact h

theorem squeezeBreaks_cons {c : Char} (h : c ≠ '\n') (t : Text) :
    squeezeBreaks (c :: t) = c :: squeezeBreaks t :=
  squeezeBreaks_cons_of_not_three fun _ hc _ => h hc

end Docmark.Text
