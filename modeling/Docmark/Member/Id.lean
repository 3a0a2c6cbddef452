import Docmark.Member.Kind
import Docmark.Member.Params

/-!
Member identifiers such as `M:Acme.Widget.Resize(System.Int32)`: a kind, a qualified name and,
where there are parentheses, a parameter list.
-/

namespace Docmark

structure MemberId where
  kind : Kind
  name : Text
  params : Option (List Text)
  raw : Text
  deriving DecidableEq, Repr

def constructorMarker : Text := "#ctor"

namespace MemberId

/-- The name and the parameter list. The list ends at the last closing parenthesis; only the return
type of a conversion, which starts with a tilde, may follow it. -/
def splitBody? (body : Text) : Option (Text × Option (List Text)) :=
  match Text.cutFirst? '(' body with
  | none => if ')' ∈ body then none else some (body, none)
  | some (name, rest) =>
    match Text.cutLast? ')' rest with
    | none => none
    | some (inner, tail) =>
      if tail.isEmpty || tail.head? = some '~' then some (name, some (Params.split inner)) else none

def parse? : Text → Option MemberId
  | letter :: ':' :: body => do
    let kind ← Kind.ofLetter? letter
    let (name, params) ← splitBody? body
    if name.isEmpty then none else some ⟨kind, name, params, letter :: ':' :: body⟩
  | _ => none

def isConstructor (id : MemberId) : Bool :=
  Text.holds constructorMarker id.name

def declaringType (id : MemberId) : Text :=
  match Text.cutLast? '.' id.name with
  | some (before, _) => before
  | none => []

def memberName (id : MemberId) : Text :=
  Text.afterLast '.' id.name

def signature (id : MemberId) : Text :=
  match id.params with
  | some params => id.memberName ++ "(" ++ Text.joinWith "," params ++ ")"
  | none => id.memberName

theorem raw_of_parse? {raw : Text} {id : MemberId} (h : parse? raw = some id) : id.raw = raw := by
  unfold parse? at h
  split at h
  · simp only [Option.bind_eq_bind, Option.bind_eq_some_iff, Prod.exists] at h
    obtain ⟨kind, -, name, params, -, h⟩ := h
    split at h
    · simp at h
    · simp only [Option.some.injEq] at h
      rw [← h]
  · simp at h

theorem kind_of_parse? {raw : Text} {id : MemberId} (h : parse? raw = some id) :
    Kind.ofOpening? raw = some id.kind := by
  unfold parse? at h
  split at h
  · simp only [Option.bind_eq_bind, Option.bind_eq_some_iff, Prod.exists] at h
    obtain ⟨kind, hk, name, params, -, h⟩ := h
    split at h
    · simp at h
    · simp only [Option.some.injEq] at h
      rw [← h]
      exact hk
  · simp at h

end MemberId
end Docmark
