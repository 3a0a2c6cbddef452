import Docmark.Text.Blank

namespace Docmark.Text

def codeLines (t : Text) : List Text :=
  ((splitOn '\n' t).map (trimEnd (· == '\r'))).filter (!allBlank ·)

def indentation (line : Text) : Nat :=
  (line.takeWhile (· == ' ')).length

def dedent (depth : Nat) (line : Text) : Text :=
  line.drop (min depth (indentation line))

/-- Every line is dedented by the indentation of the first one, and what is blank at the very end
is dropped. -/
def codeBlock (t : Text) : Text :=
  match codeLines t with
  | [] => []
  | first :: more =>
    trimEnd isBlank (joinWith ['\n'] ((first :: more).map (dedent (indentation first))))

end Docmark.Text
