import Docmark.Files.FileError
import Docmark.Files.Path

namespace Docmark

/-- A name and the names of the directories around it, innermost first. -/
abbrev Place := List Text

inductive Contents
  | text (t : Text)
  | binary (bytes : List UInt8)
  deriving DecidableEq, Repr

def Contents.read : Contents → Except FileError Text
  | text t => .ok t
  | binary _ => .error .notText

inductive Entry
  | file (contents : Contents)
  | directory
  deriving DecidableEq, Repr

structure FileSystem where
  current : Place
  /-- Every directory but the root is an entry of its own. -/
  entries : List (Place × Entry)
  deriving DecidableEq, Repr

namespace FileSystem

def get? (fs : FileSystem) (place : Place) : Option Entry :=
  if place.isEmpty then some .directory else fs.entries.lookup place

def isDirectoryAt (fs : FileSystem) (place : Place) : Bool :=
  fs.get? place = some .directory

def put (place : Place) (entry : Entry) : List (Place × Entry) → List (Place × Entry)
  | [] => [(place, entry)]
  | old :: entries =>
    if old.1 = place then (place, entry) :: entries else old :: put place entry entries

def set (fs : FileSystem) (place : Place) (entry : Entry) : FileSystem :=
  { fs with entries := put place entry fs.entries }

theorem lookup_put_self (place : Place) (entry : Entry) (entries : List (Place × Entry)) :
    (put place entry entries).lookup place = some entry := by
  induction entries with
  | nil => simp [put]
  | cons old entries ih =>
    obtain ⟨p, e⟩ := old
    simp only [put]
    split
    · simp
    · next h =>
      have hb : (place == p) = false := by simpa using fun he => h he.symm
      simp [List.lookup_cons, hb, ih]

theorem lookup_put_of_ne {place other : Place} (h : other ≠ place) (entry : Entry)
    (entries : List (Place × Entry)) :
    (put place entry entries).lookup other = entries.lookup other := by
  have hb : (other == place) = false := by simpa using h
  induction entries with
  | nil => simp [put, List.lookup_cons, hb]
  | cons old entries ih =>
    obtain ⟨p, e⟩ := old
    simp only [put]
    split
    · next he =>
      subst he
      simp [List.lookup_cons, hb]
    · simp [List.lookup_cons, ih]

theorem get?_set_self (fs : FileSystem) {place : Place} (h : place ≠ []) (entry : Entry) :
    (fs.set place entry).get? place = some entry := by
  simp [get?, set, h, lookup_put_self]

theorem get?_set_of_ne (fs : FileSystem) {place other : Place} (h : other ≠ place)
    (entry : Entry) : (fs.set place entry).get? other = fs.get? other := by
  simp [get?, set, lookup_put_of_ne h]

def isTooLong (name : Text) : Bool :=
  255 < Text.byteSize name

def checkLength (p : Path) : Except FileError Unit :=
  if p.isEmpty then .error .notFound
  else if 4096 ≤ Text.byteSize p then .error .nameTooLong
  else .ok ()

def follow (fs : FileSystem) (place : Place) : List Text → Except FileError Place
  | [] => .ok place
  | name :: names =>
    if !fs.isDirectoryAt place then .error .notDirectory
    else if name.isEmpty || name = "." then follow fs place names
    else if name = ".." then follow fs place.tail names
    else if isTooLong name then .error .nameTooLong
    else if (fs.get? (name :: place)).isNone then .error .notFound
    else follow fs (name :: place) names

def startOf (fs : FileSystem) (p : Path) : Place :=
  if Path.isAbsolute p then [] else fs.current

def locate (fs : FileSystem) (p : Path) : Except FileError Place := do
  checkLength p
  fs.follow (fs.startOf p) (Text.splitOn '/' p)

def find (fs : FileSystem) (p : Path) : Option Entry :=
  match fs.locate p with
  | .ok place => fs.get? place
  | .error _ => none

def isDirectory (fs : FileSystem) (p : Path) : Bool :=
  fs.find p = some .directory

def newPlace (fs : FileSystem) (p : Path) (dots : FileError) : Except FileError (Place × Text) := do
  checkLength p
  match (Text.splitOn '/' p).reverse.dropWhile List.isEmpty with
  | [] => throw dots
  | name :: before =>
    let around ← fs.follow (fs.startOf p) before.reverse
    if !fs.isDirectoryAt around then throw .notDirectory
    if name = "." || name = ".." then throw dots
    return (around, name)

def contents (fs : FileSystem) (p : Path) : Except FileError Contents := do
  match fs.get? (← fs.locate p) with
  | some (.file contents) => return contents
  | some .directory => throw .isDirectory
  | none => throw .notFound

def readText (fs : FileSystem) (p : Path) : Except FileError Text := do
  (← fs.contents p).read

def openForWriting (fs : FileSystem) (p : Path) : Except FileError Place := do
  let (around, name) ← fs.newPlace p .isDirectory
  if p.getLast? = some '/' then throw .isDirectory
  if isTooLong name then throw .nameTooLong
  if fs.isDirectoryAt (name :: around) then throw .isDirectory
  return name :: around

def write (fs : FileSystem) (p : Path) (contents : Contents) : Except FileError FileSystem := do
  return fs.set (← fs.openForWriting p) (.file contents)

def createDirectory (fs : FileSystem) (p : Path) : Except FileError FileSystem := do
  let (around, name) ← fs.newPlace p .alreadyExists
  if isTooLong name then throw .nameTooLong
  if (fs.get? (name :: around)).isSome then throw .alreadyExists
  return fs.set (name :: around) .directory

/-- Creates a directory and those around it. Directories made before an error stay. -/
def createDirectories (fs : FileSystem) (p : Path) : Except FileError Unit × FileSystem :=
  if p.isEmpty then (.ok (), fs)
  else
    match fs.createDirectory p with
    | .ok fs => (.ok (), fs)
    | .error .notFound =>
      match _h : Path.parent? p with
      | none => (.error .notFound, fs)
      | some around =>
        match fs.createDirectories around with
        | (.error e, fs) => (.error e, fs)
        | (.ok (), fs) =>
          match fs.createDirectory p with
          | .ok fs => (.ok (), fs)
          | .error e => (if fs.isDirectory p then .ok () else .error e, fs)
    | .error e => (if fs.isDirectory p then .ok () else .error e, fs)
termination_by p.length
decreasing_by exact Path.length_of_parent? _h

/-- Copies a file. The target is emptied before the source is read, so a file that is copied to
itself ends up empty. -/
def copy (fs : FileSystem) (source target : Path) : Except FileError FileSystem := do
  let _ ← fs.contents source
  let place ← fs.openForWriting target
  let emptied := fs.set place (.file (.text []))
  return emptied.set place (.file (← emptied.contents source))

/-- What lies at a path and below it, as paths that start with it, each with whether it is a
directory. What is in a directory is found only if the path of the directory is not too long. -/
def below (fs : FileSystem) (p : Path) : List (Path × Bool) :=
  match fs.locate p with
  | .error _ => []
  | .ok place =>
    (p, fs.isDirectoryAt place) ::
      fs.entries.filterMap fun (inner, _) =>
        if place.isSuffixOf inner && place.length < inner.length then
          let names := (inner.take (inner.length - place.length)).reverse
          match checkLength (names.dropLast.foldl Path.join p) with
          | .ok _ => some (names.foldl Path.join p, fs.isDirectoryAt inner)
          | .error _ => none
        else none

end FileSystem
end Docmark
