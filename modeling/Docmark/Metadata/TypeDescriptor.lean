import Docmark.Json.Reader

namespace Docmark

structure TypeDescriptor where
  /-- The simple name, which may end in an arity marker and in pairs of array brackets. -/
  name : Text
  namespaceName : Text
  assembly : Option Text
  arguments : List TypeDescriptor
  deriving Repr

namespace TypeDescriptor

def dropPairs : Text → Text
  | ']' :: '[' :: rest => dropPairs rest
  | t => t

def simpleName (d : TypeDescriptor) : Text :=
  Text.beforeFirst '\x60' (dropPairs d.name.reverse).reverse

def isArray (d : TypeDescriptor) : Bool :=
  List.isSuffixOf ['[', ']'] d.name

def isGeneric (d : TypeDescriptor) : Bool :=
  !d.arguments.isEmpty

def fullName (d : TypeDescriptor) : Text :=
  if d.namespaceName.isEmpty then d.simpleName else d.namespaceName ++ "." ++ d.simpleName

structure Fields where
  name : Option Text
  namespaceName : Option Text
  assembly : Option (Option Text)
  arguments : Option (List TypeDescriptor)

namespace Fields

def start : Fields :=
  ⟨none, none, none, none⟩

open Json Reader in
def all (argument : Reader TypeDescriptor) : List (FieldReader Fields) := [
  { key := "name", isSet := (·.name.isSome)
    set := fun s room v => do return { s with name := some (← text room v) } },
  { key := "namespace", isSet := (·.namespaceName.isSome)
    set := fun s room v => do return { s with namespaceName := some (← text room v) } },
  { key := "assembly", isSet := (·.assembly.isSome)
    set := fun s room v => do return { s with assembly := some (← optional text room v) } },
  { key := "arguments", isSet := (·.arguments.isSome)
    set := fun s room v => do return { s with arguments := some (← list argument room v) } }]

def finish (s : Fields) : Except Json.Fault TypeDescriptor := do
  return {
    name := ← Json.Reader.required s.name
    namespaceName := s.namespaceName.getD []
    assembly := s.assembly.getD none
    arguments := s.arguments.getD [] }

end Fields

/-- Reads a descriptor. An argument stands two containers deeper than the descriptor it belongs
to. -/
def reader : Json.Reader TypeDescriptor
  | room + 2, v => Json.Reader.record (Fields.all fun _ => reader room) .start Fields.finish (room + 2) v
  | room, v => Json.Reader.record (Fields.all fun _ v => .error v.mismatch) .start Fields.finish room v

mutual

def toJson : TypeDescriptor → Text
  | ⟨name, namespaceName, assembly, arguments⟩ =>
    "\x7b\"name\":" ++ Json.quote name ++ ",\"namespace\":" ++ Json.quote namespaceName
      ++ ",\"assembly\":" ++ (match assembly with
        | some a => Json.quote a
        | none => "null")
      ++ ",\"arguments\":[" ++ argumentsToJson arguments ++ "]\x7d"

def argumentsToJson : List TypeDescriptor → Text
  | [] => []
  | [d] => toJson d
  | d :: ds => toJson d ++ "," ++ argumentsToJson ds

end

end TypeDescriptor
end Docmark
