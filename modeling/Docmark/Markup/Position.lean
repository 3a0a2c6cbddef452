import Docmark.Text.Basic

namespace Docmark

structure Position where
  line : Nat
  column : Nat
  deriving DecidableEq, Repr

namespace Position

def after (offset : Nat) (p : Position) : Text → Position
  | [] => ⟨p.line, p.column + offset⟩
  | c :: cs =>
    if offset < c.utf8Size then ⟨p.line, p.column + offset⟩
    else if c = '\n' then after (offset - c.utf8Size) ⟨p.line + 1, 1⟩ cs
    else after (offset - c.utf8Size) ⟨p.line, p.column + c.utf8Size⟩ cs

def ofOffset (source : Text) (offset : Nat) : Position :=
  after offset ⟨1, 1⟩ source

def toText (p : Position) : Text :=
  "line " ++ Nat.toDigits 10 p.line ++ ", pos " ++ Nat.toDigits 10 p.column

end Position
end Docmark
