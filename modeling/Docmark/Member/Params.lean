import Docmark.Text.Blank

namespace Docmark.Params

/-- The bracket depth after a character. The three kinds of brackets count alike, and a closing
one too many counts for nothing. -/
def depthAfter (depth : Nat) (c : Char) : Nat :=
  if c = '{' ∨ c = '[' ∨ c = '(' then depth + 1
  else if c = '}' ∨ c = ']' ∨ c = ')' then depth - 1
  else depth

def consFirst (c : Char) : List Text → List Text
  | [] => [[c]]
  | piece :: pieces => (c :: piece) :: pieces

def splitFrom (depth : Nat) : Text → List Text
  | [] => [[]]
  | c :: cs =>
    if c = ',' ∧ depth = 0 then [] :: splitFrom 0 cs
    else consFirst c (splitFrom (depthAfter depth c) cs)

def split (t : Text) : List Text :=
  if Text.allBlank t then [] else splitFrom 0 t

theorem length_of_mem_consFirst {c : Char} {pieces : List Text} {n : Nat}
    (h : ∀ p ∈ pieces, p.length ≤ n) : ∀ p ∈ consFirst c pieces, p.length ≤ n + 1 := by
  cases pieces with
  | nil => simp [consFirst]
  | cons piece pieces =>
    intro p hp
    rcases List.mem_cons.1 hp with rfl | hp
    · simpa using h piece List.mem_cons_self
    · exact Nat.le_succ_of_le (h p (List.mem_cons_of_mem _ hp))

theorem length_of_mem_splitFrom (t : Text) (depth : Nat) :
    ∀ p ∈ splitFrom depth t, p.length ≤ t.length := by
  induction t generalizing depth with
  | nil => simp [splitFrom]
  | cons c cs ih =>
    simp only [splitFrom]
    split
    · intro p hp
      rcases List.mem_cons.1 hp with rfl | hp
      · simp
      · exact Nat.le_succ_of_le (ih 0 p hp)
    · exact length_of_mem_consFirst (ih _)

theorem length_of_mem_split {t p : Text} (h : p ∈ split t) : p.length ≤ t.length := by
  unfold split at h
  split at h
  · simp at h
  · exact length_of_mem_splitFrom t 0 p h

end Docmark.Params
