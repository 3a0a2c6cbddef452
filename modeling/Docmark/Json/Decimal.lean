import Docmark.Text.Basic

namespace Docmark.Json

structure Decimal where
  significand : Nat
  exponent : Int
  deriving DecidableEq, Repr

namespace Decimal

def take (significand : Nat) : Text → Nat × Text
  | [] => (significand, [])
  | c :: digits =>
    let longer := 10 * significand + (c.toNat - '0'.toNat)
    if longer < UInt64.size then take longer digits else (significand, c :: digits)

/-- Digits without room are dropped. In front of the point each makes the exponent larger; behind it
each digit that is not dropped makes it smaller. -/
def ofDigits (whole fraction : Text) (exponent : Int) : Decimal :=
  let (high, dropped) := take 0 whole
  let (significand, rest) := take high fraction
  ⟨significand, exponent + dropped.length - (fraction.length - rest.length : Nat)⟩

def nearest (n : Nat) : Nat :=
  let unit := Nat.pow 2 (n.log2 - 52)
  let below := n / unit
  if 2 * (n % unit) < unit ∨ 2 * (n % unit) = unit ∧ below % 2 = 0 then below * unit
  else (below + 1) * unit

/-- Significand and power of ten are rounded before they are multiplied. A product that rounds to
`2 ^ 1024` is too large. -/
def fitsDouble (d : Decimal) : Bool :=
  d.significand = 0 || d.exponent < 0 ||
    d.exponent ≤ 308 &&
      nearest d.significand * nearest (Nat.pow 10 d.exponent.toNat) < Nat.pow 2 1024 - Nat.pow 2 970

end Decimal
end Docmark.Json
