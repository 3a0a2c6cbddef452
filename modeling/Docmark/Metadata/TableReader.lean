import Docmark.Metadata.Table

namespace Docmark

open Json Reader

namespace Kind

def ofName (name : Text) : Except Fault Kind :=
  match name with
  | [c] =>
    match ofUpper? c with
    | some kind => .ok kind
    | none => .error .shape
  | _ => .error .shape

/-- A kind is its letter, or an object with the letter as its one key and `null` as the value. -/
def reader : Reader Kind
  | _, .scalar (.text q) => do ofName (← q.read)
  | _, .absent => .error .ended
  | _ + 1, .object [] fault => .error (fault.getD .notJson)
  | _ + 1, .object ((key, v) :: more) fault => do
    let kind ← ofName (← key.read)
    match v with
    | .scalar .null =>
      if more.isEmpty then
        settle fault
        return kind
      else throw .notJson
    | v => throw v.mismatch
  | _, _ => .error .notJson

end Kind

namespace MemberEntry

structure Fields where
  kind : Option Kind
  name : Option Text
  isPublic : Option Bool
  type : Option (Option TypeDescriptor)

def fields : List (FieldReader Fields) := [
  { key := "kind", isSet := (·.kind.isSome)
    set := fun s room v => do return { s with kind := some (← Kind.reader room v) } },
  { key := "name", isSet := (·.name.isSome)
    set := fun s room v => do return { s with name := some (← text room v) } },
  { key := "public", isSet := (·.isPublic.isSome)
    set := fun s room v => do return { s with isPublic := some (← flag room v) } },
  { key := "type", isSet := (·.type.isSome)
    set := fun s room v => do
      return { s with type := some (← optional TypeDescriptor.reader room v) } }]

def reader : Reader MemberEntry :=
  record fields ⟨none, none, none, none⟩ fun s => do
    return {
      kind := ← required s.kind
      name := ← required s.name
      isPublic := s.isPublic.getD true
      type := s.type.getD none }

end MemberEntry

namespace TypeEntry

structure Fields where
  name : Option Text
  isPublic : Option Bool
  members : Option (List MemberEntry)

def fields : List (FieldReader Fields) := [
  { key := "name", isSet := (·.name.isSome)
    set := fun s room v => do return { s with name := some (← text room v) } },
  { key := "public", isSet := (·.isPublic.isSome)
    set := fun s room v => do return { s with isPublic := some (← flag room v) } },
  { key := "members", isSet := (·.members.isSome)
    set := fun s room v => do
      return { s with members := some (← list MemberEntry.reader room v) } }]

def reader : Reader TypeEntry :=
  record fields ⟨none, none, none⟩ fun s => do
    return {
      name := ← required s.name
      isPublic := s.isPublic.getD true
      members := s.members.getD [] }

end TypeEntry

namespace MetadataTable

structure Fields where
  assembly : Option (Option Text)
  types : Option (List TypeEntry)

def fields : List (FieldReader Fields) := [
  { key := "assembly", isSet := (·.assembly.isSome)
    set := fun s room v => do return { s with assembly := some (← optional text room v) } },
  { key := "types", isSet := (·.types.isSome)
    set := fun s room v => do return { s with types := some (← list TypeEntry.reader room v) } }]

def reader : Reader MetadataTable :=
  record fields ⟨none, none⟩ fun s =>
    .ok { assembly := s.assembly.getD none, types := s.types.getD [] }

def ofJson (source : Text) : Except Fault MetadataTable :=
  Reader.run reader source

end MetadataTable
end Docmark
