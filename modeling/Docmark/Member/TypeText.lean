import Docmark.Member.Params

namespace Docmark

def keywordOf? (name : Text) : Option Text :=
  let keywords : List (String × String) :=
    [("string", "string"), ("object", "object"), ("int32", "int"), ("int64", "long"),
      ("boolean", "bool"), ("decimal", "decimal"), ("void", "void"), ("double", "double"),
      ("byte", "byte")]
  (keywords.find? fun entry => entry.1.toList = Text.lowerAscii name).map fun entry => entry.2.toList

/-- Drops arity markers. Inside a marker both backticks and digits are dropped. -/
def stripArityFrom (inMarker : Bool) : Text → Text
  | [] => []
  | c :: cs =>
    if c = '\x60' then stripArityFrom true cs
    else if inMarker && c.isDigit then stripArityFrom true cs
    else c :: stripArityFrom false cs

def stripArity (name : Text) : Text :=
  stripArityFrom false name

def lastSegment (name : Text) : Text :=
  Text.afterLast '.' name

def dropOpening (opening t : Text) : Text :=
  (Text.dropOpening? opening t).getD t

def stripNamespace (assembly name : Text) : Text :=
  dropOpening "System." (if assembly.isEmpty then name else dropOpening (assembly ++ ['.']) name)

inductive TypeForm
  | reference (target : Text)
  | array (element : Text)
  | generic (name arguments : Text)
  | plain

namespace TypeForm

def element? (t : Text) : Option Text :=
  if t.getLast? = some ']' then
    match Text.cutLast? '[' t with
    | some (element, dimensions) => if '}' ∈ dimensions then none else some element
    | none => none
  else none

def arguments? (t : Text) : Option (Text × Text) :=
  match Text.cutFirst? '{' t with
  | some (name, rest) => (Text.dropEnding? ['}'] rest).map (name, ·)
  | none => none

def of (t : Text) : TypeForm :=
  match Text.dropEnding? "@" t with
  | some target => .reference target
  | none =>
    match element? t with
    | some element => .array element
    | none =>
      match arguments? t with
      | some (name, arguments) => .generic name arguments
      | none => .plain

theorem length_target {t target : Text} (h : of t = .reference target) :
    target.length < t.length := by
  unfold of at h
  split at h
  · next hd =>
    simp only [reference.injEq] at h
    subst h
    simp [Text.dropEnding?_eq_some.1 hd]
  · repeat' split at h
    all_goals simp at h

theorem length_element {t element : Text} (h : of t = .array element) :
    element.length < t.length := by
  unfold of at h
  split at h
  · simp at h
  · split at h
    · next he =>
      simp only [array.injEq] at h
      subst h
      unfold element? at he
      repeat' split at he
      all_goals try simp at he
      subst he
      next hc _ =>
      have := Text.length_of_cutLast? hc
      omega
    · split at h <;> simp at h

theorem length_arguments {t name arguments : Text} (h : of t = .generic name arguments) :
    arguments.length < t.length := by
  unfold of at h
  split at h
  · simp at h
  · split at h
    · simp at h
    · split at h
      · next ha =>
        simp only [generic.injEq] at h
        obtain ⟨rfl, rfl⟩ := h
        unfold arguments? at ha
        split at ha
        · next hc =>
          simp only [Option.map_eq_some_iff, Prod.mk.injEq] at ha
          obtain ⟨_, hd, rfl, rfl⟩ := ha
          have hl := Text.length_of_cutFirst? hc
          have := congrArg List.length (Text.dropEnding?_eq_some.1 hd)
          simp at this
          omega
        · simp at ha
      · simp at h

end TypeForm

/-- A plain type name: its keyword, save for `string` and `object`, which keep their names. -/
def plainText (assembly t : Text) : Text :=
  let name := lastSegment (stripNamespace assembly t)
  match keywordOf? name with
  | some word => if word = "string" ∨ word = "object" then name else word
  | none => name

def genericText (name : Text) (arguments : List Text) : Text :=
  if name = "System.Nullable" ∧ arguments.length = 1 then Text.joinWith ", " arguments ++ "?"
  else lastSegment name ++ "‹" ++ Text.joinWith ", " arguments ++ "›"

def typeText (assembly raw : Text) : Text :=
  match _hf : TypeForm.of (Text.trim raw) with
  | .reference target => typeText assembly target ++ "@"
  | .array element => typeText assembly element ++ "[]"
  | .generic name arguments =>
    genericText name ((Params.split arguments).attach.map fun ⟨a, _⟩ => typeText assembly a)
  | .plain => plainText assembly (Text.trim raw)
termination_by raw.length
decreasing_by
  · exact Nat.lt_of_lt_of_le (TypeForm.length_target _hf) (Text.length_trim_le raw)
  · exact Nat.lt_of_lt_of_le (TypeForm.length_element _hf) (Text.length_trim_le raw)
  · next ha =>
    exact Nat.lt_of_le_of_lt (Params.length_of_mem_split ha)
      (Nat.lt_of_lt_of_le (TypeForm.length_arguments _hf) (Text.length_trim_le raw))

def parameterTexts (assembly : Text) : List Text → List Text → List Text
  | type :: types, name :: names =>
    (typeText assembly type ++ " " ++ name) :: parameterTexts assembly types names
  | [], names => names
  | _ :: _, [] => []

def parameterList (assembly : Text) (types names : List Text) : Text :=
  Text.joinWith ", " (parameterTexts assembly types names)

end Docmark
