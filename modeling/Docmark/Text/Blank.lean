import Docmark.Text.Basic

namespace Docmark

def isBlank (c : Char) : Bool :=
  let n := c.toNat
  (9 ≤ n && n ≤ 13) || n == 0x20 || n == 0x85 || n == 0xA0 || n == 0x1680 ||
    (0x2000 ≤ n && n ≤ 0x200A) || n == 0x2028 || n == 0x2029 || n == 0x202F || n == 0x205F ||
    n == 0x3000

namespace Text

def trim (t : Text) : Text :=
  trimBoth isBlank t

def allBlank (t : Text) : Bool :=
  t.all isBlank

def collapse : Text → Text
  | [] => []
  | [c] => if isBlank c then [' '] else [c]
  | c :: d :: rest =>
    if isBlank c then
      if isBlank d then collapse (d :: rest) else ' ' :: collapse (d :: rest)
    else c :: collapse (d :: rest)

theorem length_trim_le (t : Text) : (trim t).length ≤ t.length :=
  length_trimBoth_le isBlank t

theorem collapse_cons_of_not_blank {c : Char} (h : isBlank c = false) (t : Text) :
    collapse (c :: t) = c :: collapse t := by
  cases t <;> simp [collapse, h]

theorem collapse_blank_blank {c d : Char} (hc : isBlank c) (hd : isBlank d) (t : Text) :
    collapse (c :: d :: t) = collapse (d :: t) := by
  simp [collapse, hc, hd]

end Text
end Docmark
