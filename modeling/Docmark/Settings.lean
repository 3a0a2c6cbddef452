import Docmark.Json.Reader

namespace Docmark

structure Settings where
  filesToIgnore : List Text
  namespacesToRemove : List Text
  deriving DecidableEq, Repr

namespace Settings

def empty : Settings :=
  ⟨[], []⟩

def ignores (s : Settings) (fileName : Text) : Bool :=
  s.filesToIgnore.contains fileName

structure Fields where
  filesToIgnore : Option (List Text)
  namespacesToRemove : Option (List Text)

open Json Reader in
def fields : List (FieldReader Fields) := [
  { key := "FilesToIgnore", isSet := (·.filesToIgnore.isSome)
    set := fun s room v => do return { s with filesToIgnore := some (← list text room v) } },
  { key := "NameSpacesToRemove", isSet := (·.namespacesToRemove.isSome)
    set := fun s room v => do return { s with namespacesToRemove := some (← list text room v) } }]

def reader : Json.Reader Settings :=
  Json.Reader.record fields ⟨none, none⟩ fun s =>
    .ok ⟨s.filesToIgnore.getD [], s.namespacesToRemove.getD []⟩

def ofJson (source : Text) : Except Json.Fault Settings :=
  Json.Reader.run reader source

def listToJson : List Text → Text
  | [] => "[]"
  | items =>
    "[\n    " ++ Text.joinWith ",\n    " (items.map Json.quote) ++ "\n  ]"

def toJson (s : Settings) : Text :=
  "\x7b\n  \"FilesToIgnore\": " ++ listToJson s.filesToIgnore
    ++ ",\n  \"NameSpacesToRemove\": " ++ listToJson s.namespacesToRemove ++ "\n\x7d"

end Settings
end Docmark
