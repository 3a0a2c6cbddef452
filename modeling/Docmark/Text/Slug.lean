import Docmark.Text.Blank
import Docmark.Text.Property.Alphanumeric
import Docmark.Text.Property.CaseMap

namespace Docmark.Text

def anchorChar? (c : Char) : Option Char :=
  if c = ' ' then some '-'
  else if isAlphanumeric c || c == '-' || c == '_' then some c
  else none

def slug (t : Text) : Text :=
  ((trim t).filterMap anchorChar?).flatMap lowerChar

end Docmark.Text
