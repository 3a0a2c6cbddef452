import Docmark.Text.Basic

namespace Docmark.Text

def digit? (base : Nat) (c : Char) : Option Nat :=
  let value :=
    if '0' ≤ c ∧ c ≤ '9' then some (c.toNat - '0'.toNat)
    else if 'a' ≤ c ∧ c ≤ 'z' then some (c.toNat - 'a'.toNat + 10)
    else if 'A' ≤ c ∧ c ≤ 'Z' then some (c.toNat - 'A'.toNat + 10)
    else none
  value.filter (· < base)

def numberFrom? (base n : Nat) : Text → Option Nat
  | [] => some n
  | c :: cs => do numberFrom? base (base * n + (← digit? base c)) cs

end Docmark.Text
