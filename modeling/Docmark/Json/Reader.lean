import Docmark.Json.Value

/-!
Readers of JSON values: text, flags, lists and records. The first thing wrong, in the order of the
text, is what a reader reports.
-/

namespace Docmark.Json

/-- Reads a value; the number is how many containers may still be opened. -/
abbrev Reader (α : Type) := Nat → Value → Except Fault α

def maxDepth : Nat := 127

namespace Value

def mismatch : Value → Fault
  | .absent => .ended
  | .scalar (.broken wanted _) => wanted
  | .scalar (.number false) => .notJson
  | .scalar (.text q) =>
    match q.read with
    | .error fault => fault
    | .ok _ => .shape
  | _ => .shape

mutual

def passed? : Value → Option Fault
  | .absent => some .ended
  | .scalar (.broken _ passed) => some passed
  | .scalar (.text q) => q.fault
  | .scalar _ => none
  | .array items fault => (itemsPassed? items).or fault
  | .object fields fault => (fieldsPassed? fields).or fault

def itemsPassed? : List Value → Option Fault
  | [] => none
  | v :: items => (passed? v).or (itemsPassed? items)

def fieldsPassed? : List (Quoted × Value) → Option Fault
  | [] => none
  | (key, v) :: fields => (key.fault.or (passed? v)).or (fieldsPassed? fields)

end

end Value

namespace Reader

def settle (fault : Option Fault) : Except Fault Unit :=
  match fault with
  | some f => .error f
  | none => .ok ()

def text : Reader Text
  | _, .scalar (.text q) => q.read
  | _, v => .error v.mismatch

def flag : Reader Bool
  | _, .scalar (.bool b) => .ok b
  | _, v => .error v.mismatch

def optional {α : Type} (item : Reader α) : Reader (Option α)
  | _, .scalar .null => .ok none
  | room, v => (item room v).map some

def items {α : Type} (item : Value → Except Fault α) : List Value → Except Fault (List α)
  | [] => .ok []
  | v :: vs => do return (← item v) :: (← items item vs)

def list {α : Type} (item : Reader α) : Reader (List α)
  | 0, .array _ _ => .error .notJson
  | room + 1, .array vs fault => do
    let read ← items (item room) vs
    settle fault
    return read
  | _, v => .error v.mismatch

/-- A field of a record that is read into `σ` one field at a time. -/
structure FieldReader (σ : Type) where
  key : Text
  isSet : σ → Bool
  set : σ → Reader σ

def setFields {σ : Type} (fields : List (FieldReader σ)) (room : Nat) (s : σ) :
    List (Quoted × Value) → Except Fault σ
  | [] => .ok s
  | (key, v) :: more => do
    let name ← key.read
    match fields.find? (·.key = name) with
    | none =>
      settle v.passed?
      setFields fields room s more
    | some field =>
      if field.isSet s then .error .shape
      else setFields fields room (← field.set s room v) more

def setInOrder {σ : Type} (room : Nat) (fault : Option Fault) :
    List (FieldReader σ) → σ → List Value → Except Fault σ
  | _, s, [] => (settle fault).map fun _ => s
  | [], _, _ :: _ => .error .notJson
  | field :: fields, s, v :: vs => do setInOrder room fault fields (← field.set s room v) vs

/-- A record is written as an object, or as an array of its fields in order. -/
def record {σ α : Type} (fields : List (FieldReader σ)) (start : σ) (finish : σ → Except Fault α) :
    Reader α
  | 0, .array _ _ => .error .notJson
  | 0, .object _ _ => .error .notJson
  | room + 1, .object given fault => do
    let s ← setFields fields room start given
    settle fault
    finish s
  | room + 1, .array vs fault => do finish (← setInOrder room fault fields start vs)
  | _, v => .error v.mismatch

def required {α : Type} : Option α → Except Fault α
  | some a => .ok a
  | none => .error .shape

def run {α : Type} (reader : Reader α) (source : Text) : Except Fault α := do
  let (v, rest) := Value.build .value [] (tokens source)
  let a ← reader maxDepth v
  if rest.isEmpty then return a else throw .notJson

end Reader
end Docmark.Json
