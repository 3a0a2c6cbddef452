import Docmark.Markup.Attribute

namespace Docmark.Markup

inductive DoctypePart
  | head (quote : Option Char)
  | subset
  | comment
  | instruction
  | quoted (quote : Option Char)
  | plain
  | tail

def quoteAfter (quote : Option Char) (c : Char) : Option Char :=
  match quote with
  | some q => if c = q then none else some q
  | none => if isQuote c then some c else none

def declarationPart (t : Text) : DoctypePart :=
  let openings : List Text := ["!ENTITY", "!ATTLIST", "!NOTATION"]
  if openings.any (·.isPrefixOf t) then .quoted none else .plain

def cutDoctype? : DoctypePart → Text → Option (Text × Text)
  | _, [] => none
  | .head none, '>' :: rest => some ([], rest)
  | .head none, '[' :: rest => grow '[' (cutDoctype? .subset rest)
  | .head quote, c :: rest => grow c (cutDoctype? (.head (quoteAfter quote c)) rest)
  | .subset, ']' :: rest => grow ']' (cutDoctype? .tail rest)
  | .subset, '<' :: '?' :: rest => grow '<' (grow '?' (cutDoctype? .instruction rest))
  | .subset, '<' :: '!' :: '-' :: '-' :: rest =>
    grow '<' (grow '!' (grow '-' (grow '-' (cutDoctype? .comment rest))))
  | .subset, '<' :: rest => grow '<' (cutDoctype? (declarationPart rest) rest)
  | .subset, c :: rest => grow c (cutDoctype? .subset rest)
  | .comment, '-' :: '-' :: '>' :: rest => grow '-' (grow '-' (grow '>' (cutDoctype? .subset rest)))
  | .comment, c :: rest => grow c (cutDoctype? .comment rest)
  | .instruction, '?' :: '>' :: rest => grow '?' (grow '>' (cutDoctype? .subset rest))
  | .instruction, c :: rest => grow c (cutDoctype? .instruction rest)
  | .quoted none, '>' :: rest => grow '>' (cutDoctype? .subset rest)
  | .quoted quote, c :: rest => grow c (cutDoctype? (.quoted (quoteAfter quote c)) rest)
  | .plain, '>' :: rest => grow '>' (cutDoctype? .subset rest)
  | .plain, c :: rest => grow c (cutDoctype? .plain rest)
  | .tail, '>' :: rest => some ([], rest)
  | .tail, c :: rest => grow c (cutDoctype? .tail rest)
where
  grow (c : Char) : Option (Text × Text) → Option (Text × Text) :=
    Option.map fun (before, after) => (c :: before, after)

theorem eq_of_cutDoctype? {part : DoctypePart} {t before after : Text}
    (h : cutDoctype? part t = some (before, after)) : t = before ++ '>' :: after := by
  fun_induction cutDoctype? part t generalizing before <;>
    simp_all only [cutDoctype?.grow, Option.map_eq_some_iff, Prod.mk.injEq, Prod.exists,
      reduceCtorEq, Option.some.injEq]
  all_goals grind

end Docmark.Markup
