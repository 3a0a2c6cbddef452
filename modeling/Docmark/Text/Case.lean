import Docmark.Text.Basic
import Docmark.Text.Property.Cased
import Docmark.Text.Property.CaseIgnorable
import Docmark.Text.Property.CaseMap

namespace Docmark.Text

def meetsCased (t : Text) : Bool :=
  (t.dropWhile isCaseIgnorable).head?.any isCased

/-- Lowers the text that follows `before`, which is given in reverse; a capital sigma that ends a
word becomes a final one. -/
def lowerAfter (before : Text) : Text → Text
  | [] => []
  | c :: rest =>
    (if c = 'Σ' then [if meetsCased before && !meetsCased rest then 'ς' else 'σ'] else lowerChar c)
      ++ lowerAfter (c :: before) rest

def lower (t : Text) : Text :=
  lowerAfter [] t

def capitalize : Text → Text
  | [] => []
  | c :: rest => upperChar c ++ rest

end Docmark.Text
