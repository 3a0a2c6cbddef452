import Docmark.Text.Number

namespace Docmark.Json

inductive Fault
  | ended
  | notJson
  | shape
  deriving DecidableEq, Repr

/-- A piece of quoted text: a character, or one half of a pair of surrogates. -/
inductive Part
  | char (c : Char)
  | high (n : Nat)
  | low (n : Nat)
  deriving DecidableEq, Repr

structure Quoted where
  parts : List Part
  fault : Option Fault
  deriving DecidableEq, Repr

namespace Part

def ofCode (n : Nat) : Part :=
  if 0xD800 ≤ n ∧ n < 0xDC00 then high n
  else if 0xDC00 ≤ n ∧ n < 0xE000 then low n
  else char (Char.ofNat n)

end Part

namespace Quoted

def cons (p : Part) (q : Quoted × Text) : Quoted × Text :=
  ({ q.1 with parts := p :: q.1.parts }, q.2)

def stop (fault : Fault) : Quoted × Text :=
  (⟨[], some fault⟩, [])

def escaped? : Char → Option Char
  | '"' => some '"'
  | '\\' => some '\\'
  | '/' => some '/'
  | 'b' => some '\x08'
  | 'f' => some '\x0c'
  | 'n' => some '\n'
  | 'r' => some '\r'
  | 't' => some '\t'
  | _ => none

def scan : Text → Quoted × Text
  | [] => stop .ended
  | '"' :: rest => (⟨[], none⟩, rest)
  | ['\\'] => stop .ended
  | '\\' :: 'u' :: a :: b :: c :: d :: rest =>
    match Text.numberFrom? 16 0 [a, b, c, d] with
    | some n => cons (.ofCode n) (scan rest)
    | none => stop .notJson
  | '\\' :: 'u' :: rest => stop (if Text.byteSize rest < 4 then .ended else .notJson)
  | '\\' :: c :: rest =>
    match escaped? c with
    | some e => cons (.char e) (scan rest)
    | none => stop .notJson
  | c :: rest => if c.toNat < 0x20 then stop .notJson else cons (.char c) (scan rest)

def readParts (fault : Option Fault) : List Part → Except Fault Text
  | [] =>
    match fault with
    | some f => .error f
    | none => .ok []
  | .char c :: parts => (readParts fault parts).map (c :: ·)
  | .high h :: .low l :: parts =>
    (readParts fault parts).map (Char.ofNat (0x10000 + (h - 0xD800) * 0x400 + (l - 0xDC00)) :: ·)
  | [.high _] => .error (fault.getD .notJson)
  | _ => .error .notJson

def read (q : Quoted) : Except Fault Text :=
  readParts q.fault q.parts

end Quoted

def escape (c : Char) : Text :=
  if c = '"' then ['\\', '"']
  else if c = '\\' then ['\\', '\\']
  else if c = '\x08' then ['\\', 'b']
  else if c = '\x0c' then ['\\', 'f']
  else if c = '\n' then ['\\', 'n']
  else if c = '\r' then ['\\', 'r']
  else if c = '\t' then ['\\', 't']
  else if c.toNat < 0x20 then ['\\', 'u', '0', '0', Nat.digitChar (c.toNat / 16), Nat.digitChar (c.toNat % 16)]
  else [c]

def quote (t : Text) : Text :=
  '"' :: t.flatMap escape ++ ['"']

theorem Quoted.length_scan_le (t : Text) : (Quoted.scan t).2.length ≤ t.length := by
  fun_induction Quoted.scan t <;>
    simp_all only [Quoted.stop, Quoted.cons, List.length_nil, List.length_cons, Nat.zero_le,
      Nat.le_refl] <;> omega

end Docmark.Json
