import Docmark.Markup.Node

namespace Docmark

structure UnknownTag where
  tag : Text
  position : Position
  deriving DecidableEq, Repr

def UnknownTag.message (u : UnknownTag) : Text :=
  "Unknown element type \"" ++ u.tag ++ "\" on " ++ u.position.toText

structure Outcome (α : Type) where
  warnings : List UnknownTag
  result : Except UnknownTag α

namespace Outcome

variable {α β : Type}

def ok (a : α) : Outcome α :=
  ⟨[], .ok a⟩

def fail (u : UnknownTag) : Outcome α :=
  ⟨[], .error u⟩

def warn (u : UnknownTag) : Outcome Unit :=
  ⟨[u], .ok ()⟩

def withWarnings (before : List UnknownTag) (x : Outcome α) : Outcome α :=
  { x with warnings := before ++ x.warnings }

def bind (x : Outcome α) (f : α → Outcome β) : Outcome β :=
  match x.result with
  | .ok a => (f a).withWarnings x.warnings
  | .error u => ⟨x.warnings, .error u⟩

instance : Monad Outcome where
  pure := ok
  bind := bind

@[simp] theorem pure_eq_ok (a : α) : (pure a : Outcome α) = ok a := rfl

@[simp] theorem ok_bind (a : α) (f : α → Outcome β) : (ok a >>= f) = f a := by
  change (f a).withWarnings [] = f a
  simp [withWarnings]

@[simp] theorem fail_bind (u : UnknownTag) (f : α → Outcome β) : (fail u >>= f) = fail u := rfl

theorem bind_result_ok {x : Outcome α} {a : α} (h : x.result = .ok a) (f : α → Outcome β) :
    (x >>= f) = (f a).withWarnings x.warnings := by
  change x.bind f = _
  rw [bind, h]

theorem bind_result_error {x : Outcome α} {u : UnknownTag} (h : x.result = .error u)
    (f : α → Outcome β) : (x >>= f) = ⟨x.warnings, .error u⟩ := by
  change x.bind f = _
  rw [bind, h]

theorem id_map (x : Outcome α) : id <$> x = x := by
  change (x >>= ok) = x
  obtain ⟨warnings, result⟩ := x
  cases result with
  | error u => rfl
  | ok a => rw [bind_result_ok rfl, withWarnings, ok, List.append_nil]

end Outcome
end Docmark
