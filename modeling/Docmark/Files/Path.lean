import Docmark.Text.Basic

namespace Docmark

abbrev Path := Text

namespace Path

def dropTail : Text → Text
  | '/' :: rest => dropTail rest
  | '.' :: '/' :: rest => dropTail rest
  | t => t

def split? (p : Path) : Option (Text × Text) :=
  let body := dropTail p.reverse
  let name := (body.takeWhile (· != '/')).reverse
  if name.isEmpty || name = "." || name = ".." then none
  else some ((body.dropWhile (· != '/')).reverse, name)

def fileName? (p : Path) : Option Text :=
  (split? p).map (·.2)

def splitExtension (name : Text) : Text × Option Text :=
  match Text.cutLast? '.' name with
  | some (stem, extension) => if stem.isEmpty then (name, none) else (stem, some extension)
  | none => (name, none)

def extension? (p : Path) : Option Text := do
  (splitExtension (← fileName? p)).2

def withExtension (p : Path) (extension : Text) : Path :=
  match split? p with
  | some (front, name) => front ++ (splitExtension name).1 ++ "." ++ extension
  | none => p

def isAbsolute (p : Path) : Bool :=
  p.head? = some '/'

def join (p q : Path) : Path :=
  if isAbsolute q || p.isEmpty then q
  else if p.getLast? = some '/' then p ++ q
  else p ++ "/" ++ q

def parent? (p : Path) : Option Path :=
  match dropTail p.reverse with
  | [] => none
  | body =>
    let front := body.dropWhile (· != '/')
    match dropTail front with
    | [] => some (if front.isEmpty then [] else ['/'])
    | kept => some kept.reverse

theorem length_dropTail_le (t : Text) : (dropTail t).length ≤ t.length := by
  fun_induction dropTail t <;> simp_all <;> omega

theorem dropTail_head_ne {t rest : Text} {c : Char} (h : dropTail t = c :: rest) : c ≠ '/' := by
  fun_induction dropTail t <;> simp_all

theorem length_of_parent? {p q : Path} (h : parent? p = some q) : q.length < p.length := by
  have hb := length_dropTail_le p.reverse
  rw [List.length_reverse] at hb
  unfold parent? at h
  cases hd : dropTail p.reverse with
  | nil => simp [hd] at h
  | cons c rest =>
    have hc : (c != '/') = true := by simpa using dropTail_head_ne hd
    have hf : ((c :: rest).dropWhile (· != '/')).length ≤ rest.length := by
      simpa [List.dropWhile_cons, hc] using (List.dropWhile_sublist (· != '/')).length_le
    have hk := length_dropTail_le ((c :: rest).dropWhile (· != '/'))
    simp only [hd] at h
    rw [hd, List.length_cons] at hb
    split at h
    · simp only [Option.some.injEq] at h
      subst h
      split
      · simp only [List.length_nil]
        omega
      · next hne =>
        have : 0 < ((c :: rest).dropWhile (· != '/')).length := by
          simpa [List.length_pos_iff] using hne
        simp only [List.length_cons, List.length_nil]
        omega
    · simp only [Option.some.injEq] at h
      subst h
      rw [List.length_reverse]
      omega

inductive Component
  | root
  | here
  | up
  | name (n : Text)
  deriving DecidableEq, Repr

def componentsOf : List Text → List Component
  | [] => []
  | n :: ns =>
    if n.isEmpty || n = "." then componentsOf ns
    else (if n = ".." then .up else .name n) :: componentsOf ns

def components (p : Path) : List Component :=
  let names := Text.splitOn '/' p
  (if isAbsolute p then [.root] else if names.head? = some ['.'] then [.here] else [])
    ++ componentsOf names

namespace Component

def rank : Component → Nat
  | root => 0
  | here => 1
  | up => 2
  | name _ => 3

def text : Component → Text
  | name n => n
  | _ => []

def before (a b : Component) : Bool :=
  a.rank < b.rank || (a.rank = b.rank && decide (a.text < b.text))

end Component

def componentsBefore : List Component → List Component → Bool
  | [], [] => false
  | [], _ :: _ => true
  | _ :: _, [] => false
  | a :: as, b :: bs => a.before b || (a = b && componentsBefore as bs)

def isBefore (p q : Path) : Bool :=
  componentsBefore (components p) (components q)

def insert (p : Path) : List Path → List Path
  | [] => [p]
  | q :: qs =>
    if isBefore p q then p :: q :: qs
    else if isBefore q p then q :: insert p qs
    else q :: qs

def ascending (ps : List Path) : List Path :=
  ps.foldl (fun sorted p => insert p sorted) []

end Path
end Docmark
