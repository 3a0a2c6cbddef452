import Docmark.Files.FileSystem
import Docmark.Proofs.Paths
import Docmark.Proofs.Results

namespace Docmark

namespace FileSystem

open Docmark.Path

variable {fs later : FileSystem} {place around : Place} {p : Path} {name : Text}

/-- Whatever is there stays there, and directories stay directories. -/
structure Keeps (fs later : FileSystem) : Prop where
  current_eq : later.current = fs.current
  directory : ∀ place, fs.isDirectoryAt place = true → later.isDirectoryAt place = true
  present : ∀ place, (fs.get? place).isSome → (later.get? place).isSome

theorem Keeps.refl (fs : FileSystem) : Keeps fs fs :=
  ⟨rfl, fun _ h => h, fun _ h => h⟩

theorem Keeps.trans {last : FileSystem} (h : Keeps fs later) (h' : Keeps later last) :
    Keeps fs last where
  current_eq := h'.current_eq.trans h.current_eq
  directory place hd := h'.directory place (h.directory place hd)
  present place hp := h'.present place (h.present place hp)

theorem follow_append (fs : FileSystem) (place : Place) (names more : List Text) :
    fs.follow place (names ++ more) = fs.follow place names >>= (fs.follow · more) := by
  induction names generalizing place with
  | nil => rfl
  | cons name names ih =>
    simp only [List.cons_append, follow, ih]
    repeat' split
    all_goals rfl

theorem follow_name (hd : fs.isDirectoryAt around = true) (h : IsName name) :
    fs.follow around [name] =
      if isTooLong name then .error .nameTooLong
      else if (fs.get? (name :: around)).isNone then .error .notFound
      else .ok (name :: around) := by
  have hdot : (name.isEmpty || decide (name = ".")) = false := by
    rw [decide_eq_false h.ne_here, List.isEmpty_eq_false_iff.2 h.ne_nil]
    rfl
  simp only [follow, hd, hdot, if_neg h.ne_up, Bool.not_true, Bool.false_eq_true, if_false]

theorem follow_blanks (hd : fs.isDirectoryAt place = true) {blanks : List Text}
    (h : ∀ b ∈ blanks, b = []) : fs.follow place blanks = .ok place := by
  induction blanks with
  | nil => rfl
  | cons b blanks ih =>
    rw [h b List.mem_cons_self]
    simp only [follow, hd, List.isEmpty_nil, Bool.true_or, if_true, Bool.not_true, Bool.false_eq_true,
      if_false]
    exact ih fun b hb => h b (List.mem_cons_of_mem _ hb)

theorem Keeps.follow (hk : Keeps fs later) {names : List Text} (h : fs.follow around names = .ok place) :
    later.follow around names = .ok place := by
  induction names generalizing around with
  | nil => exact h
  | cons name names ih =>
    rw [FileSystem.follow] at h ⊢
    split at h
    · cases h
    · next hd =>
      have hd' := hk.directory around (by simpa using hd)
      simp only [hd', Bool.not_true, Bool.false_eq_true, if_false]
      split at h
      · next hsame => rw [if_pos hsame, ih h]
      · next hsame =>
        rw [if_neg hsame]
        split at h
        · next hup => rw [if_pos hup, ih h]
        · next hup =>
          rw [if_neg hup]
          split at h
          · cases h
          · next hlong =>
            rw [if_neg hlong]
            split at h
            · cases h
            · next hnone =>
              have hp := hk.present (name :: around) (by simpa [Option.isSome_iff_ne_none] using hnone)
              rw [if_neg (by simpa [Option.isSome_iff_ne_none] using hp), ih h]

theorem Keeps.startOf (hk : Keeps fs later) (p : Path) : later.startOf p = fs.startOf p := by
  rw [FileSystem.startOf, FileSystem.startOf, hk.current_eq]

theorem locate_eq_ok_iff :
    fs.locate p = .ok place ↔
      checkLength p = .ok () ∧ fs.follow (fs.startOf p) (Text.splitOn '/' p) = .ok place := by
  rw [locate, bind_eq_ok_iff]
  exact ⟨fun ⟨_, hlength, h⟩ => ⟨hlength, h⟩, fun ⟨hlength, h⟩ => ⟨(), hlength, h⟩⟩

theorem Keeps.locate (hk : Keeps fs later) (h : fs.locate p = .ok place) :
    later.locate p = .ok place := by
  rw [locate_eq_ok_iff] at h ⊢
  rw [hk.startOf]
  exact ⟨h.1, hk.follow h.2⟩

theorem ne_nil_of_not_directory (h : fs.isDirectoryAt place = false) : place ≠ [] := by
  rintro rfl
  cases h

theorem isDirectoryAt_iff : fs.isDirectoryAt place = true ↔ fs.get? place = some .directory :=
  decide_eq_true_iff

theorem keeps_set {entry : Entry} (hne : place ≠ [])
    (h : fs.isDirectoryAt place = true → entry = .directory) : Keeps fs (fs.set place entry) where
  current_eq := rfl
  directory other hd := by
    rw [isDirectoryAt_iff] at hd ⊢
    by_cases ho : other = place
    · subst ho
      rw [get?_set_self fs hne, h (isDirectoryAt_iff.2 hd)]
    · rw [get?_set_of_ne fs ho, hd]
  present other hp := by
    by_cases ho : other = place
    · subst ho
      rw [get?_set_self fs hne]
      rfl
    · rwa [get?_set_of_ne fs ho]

theorem keeps_set_file (h : fs.isDirectoryAt place = false) (contents : Contents) :
    Keeps fs (fs.set place (.file contents)) :=
  keeps_set (ne_nil_of_not_directory h) fun hd => absurd (h.symm.trans hd) Bool.false_ne_true

structure Names (fs : FileSystem) (p : Path) (around : Place) (name : Text) (blanks : List Text) :
    Prop where
  checked : checkLength p = .ok ()
  split : ∃ names, Text.splitOn '/' p = names ++ name :: blanks ∧
    fs.follow (fs.startOf p) names = .ok around
  blank : ∀ b ∈ blanks, b = []
  directory : fs.isDirectoryAt around = true
  isName : IsName name

theorem exists_of_dropWhile {pieces before : List Text}
    (h : pieces.reverse.dropWhile List.isEmpty = name :: before) :
    ∃ blanks, pieces = before.reverse ++ name :: blanks ∧ (∀ b ∈ blanks, b = []) ∧ name ≠ [] := by
  have hsplit := List.takeWhile_append_dropWhile (p := List.isEmpty) (l := pieces.reverse)
  rw [h] at hsplit
  refine ⟨(pieces.reverse.takeWhile List.isEmpty).reverse, ?_, ?_, ?_⟩
  · have := congrArg List.reverse hsplit
    simpa using this.symm
  · intro b hb
    exact List.isEmpty_iff.1 (List.mem_takeWhile_imp (List.mem_reverse.1 hb))
  · have hhead := List.head?_dropWhile_not List.isEmpty pieces.reverse
    rw [h] at hhead
    simpa using hhead

theorem names_of_newPlace {dots : FileError} (h : fs.newPlace p dots = .ok (around, name)) :
    ∃ blanks, fs.Names p around name blanks := by
  obtain ⟨⟨⟩, hlength, h⟩ := bind_eq_ok_iff.1 h
  split at h
  · cases h
  · next last before hpieces =>
    obtain ⟨place, hfollow, h⟩ := bind_eq_ok_iff.1 h
    obtain ⟨blanks, hsplit, hblank, hne⟩ := exists_of_dropWhile hpieces
    have hmem : last ∈ Text.splitOn '/' p := by simp [hsplit]
    obtain ⟨hd, h⟩ := ite_throw_eq_ok_iff.1 h
    obtain ⟨hdots, h⟩ := ite_throw_eq_ok_iff.1 h
    cases h
    rw [Bool.or_eq_true, decide_eq_true_eq, decide_eq_true_eq, not_or] at hdots
    refine ⟨blanks, hlength, ⟨_, hsplit, hfollow⟩, hblank, by simpa using hd, ?_⟩
    exact ⟨hne, Text.not_mem_of_mem_splitOn hmem, hdots.1, hdots.2⟩

theorem Names.locate {blanks : List Text} (h : fs.Names p around name blanks) (hk : Keeps fs later)
    (hshort : isTooLong name = false) (hp : (later.get? (name :: around)).isSome)
    (hb : blanks = [] ∨ later.isDirectoryAt (name :: around) = true) :
    later.locate p = .ok (name :: around) := by
  obtain ⟨names, hsplit, hfollow⟩ := h.split
  have hthere : ¬ (later.get? (name :: around)).isNone = true := by
    rw [Option.isNone_iff_eq_none]
    exact Option.isSome_iff_ne_none.1 hp
  have hname : later.follow around [name] = .ok (name :: around) := by
    rw [follow_name (hk.directory around h.directory) h.isName, if_neg (hshort ▸ Bool.false_ne_true),
      if_neg hthere]
  have hblanks : later.follow (name :: around) blanks = .ok (name :: around) := by
    rcases hb with rfl | hd
    · rfl
    · exact follow_blanks hd h.blank
  rw [locate_eq_ok_iff]
  refine ⟨h.checked, ?_⟩
  rw [hsplit, hk.startOf, follow_append, hk.follow hfollow, ← List.singleton_append]
  change later.follow around ([name] ++ blanks) = _
  rw [follow_append, hname]
  exact hblanks

/-- A path of a file that can be made, or replaced. -/
structure Opens (fs : FileSystem) (p : Path) (around : Place) (name : Text) : Prop
    extends fs.Names p around name [] where
  short : isTooLong name = false
  free : fs.isDirectoryAt (name :: around) = false

theorem opens_of_openForWriting (h : fs.openForWriting p = .ok place) :
    ∃ around name, place = name :: around ∧ fs.Opens p around name := by
  obtain ⟨⟨around, name⟩, hnew, h⟩ := bind_eq_ok_iff.1 h
  obtain ⟨hlast, h⟩ := ite_throw_eq_ok_iff.1 h
  obtain ⟨hshort, h⟩ := ite_throw_eq_ok_iff.1 h
  obtain ⟨hfree, h⟩ := ite_throw_eq_ok_iff.1 h
  cases h
  obtain ⟨blanks, hnames⟩ := names_of_newPlace hnew
  obtain ⟨names, hsplit, -⟩ := hnames.split
  have hnone : blanks = [] := by
    rcases List.eq_nil_or_concat' blanks with rfl | ⟨front, last, rfl⟩
    · rfl
    · have hempty : last = [] := hnames.blank last List.mem_concat_self
      rw [hempty, ← List.cons_append, ← List.append_assoc] at hsplit
      obtain ⟨before, hbefore, rfl⟩ := exists_front hsplit
      rcases hbefore with rfl | ⟨before, rfl⟩
      · cases hnames.checked
      · exact absurd (by simp) hlast
  exact ⟨around, name, rfl, hnone ▸ hnames, by simpa using hshort, by simpa using hfree⟩

theorem Opens.openForWriting_eq (h : fs.Opens p around name) :
    fs.openForWriting p = .ok (name :: around) := by
  obtain ⟨names, hsplit, hfollow⟩ := h.split
  have hpieces : (Text.splitOn '/' p).reverse.dropWhile List.isEmpty = name :: names.reverse := by
    rw [hsplit, List.reverse_append, List.reverse_singleton, List.singleton_append,
      List.dropWhile_cons_of_neg (by simpa using h.isName.ne_nil)]
  have hdots : ¬ (decide (name = ".") || decide (name = "..")) = true := by
    rw [Bool.or_eq_true, decide_eq_true_eq, decide_eq_true_eq, not_or]
    exact ⟨h.isName.ne_here, h.isName.ne_up⟩
  have hnew : fs.newPlace p .isDirectory = .ok (around, name) := by
    refine bind_eq_ok_iff.2 ⟨(), h.checked, ?_⟩
    rw [hpieces]
    refine bind_eq_ok_iff.2 ⟨around, by rwa [List.reverse_reverse], ?_⟩
    exact ite_throw_eq_ok_iff.2 ⟨by simp [h.directory], ite_throw_eq_ok_iff.2 ⟨hdots, rfl⟩⟩
  have hlast : p.getLast? ≠ some '/' := by
    obtain ⟨front, -, rfl⟩ := exists_front hsplit
    intro heq
    rw [List.getLast?_append_of_ne_nil _ h.isName.ne_nil] at heq
    exact h.isName.plain (List.mem_of_getLast? heq)
  refine bind_eq_ok_iff.2 ⟨(around, name), hnew, ite_throw_eq_ok_iff.2 ⟨hlast, ?_⟩⟩
  exact ite_throw_eq_ok_iff.2 ⟨by simp [h.short], ite_throw_eq_ok_iff.2 ⟨by simp [h.free], rfl⟩⟩

theorem Opens.locate (h : fs.Opens p around name) (hk : Keeps fs later)
    (hp : (later.get? (name :: around)).isSome) : later.locate p = .ok (name :: around) :=
  h.toNames.locate hk h.short hp (.inl rfl)

theorem Opens.find_eq (h : fs.Opens p around name) : fs.find p = fs.get? (name :: around) := by
  cases hentry : fs.get? (name :: around) with
  | some entry =>
    rw [find, h.locate (.refl fs) (by rw [hentry]; rfl)]
    exact hentry
  | none =>
    obtain ⟨names, hsplit, hfollow⟩ := h.split
    have hmissing : fs.locate p = .error .notFound := by
      have hname : fs.follow around [name] = .error .notFound := by
        rw [follow_name h.directory h.isName, if_neg (h.short ▸ Bool.false_ne_true), hentry]
        rfl
      rw [FileSystem.locate, h.checked, hsplit]
      change fs.follow (fs.startOf p) (names ++ [name]) = _
      rw [follow_append, hfollow]
      exact hname
    rw [find, hmissing]

theorem Opens.fileName?_eq (h : fs.Opens p around name) : fileName? p = some name := by
  obtain ⟨names, hsplit, -⟩ := h.split
  obtain ⟨front, hfront, rfl⟩ := exists_front hsplit
  exact fileName?_append hfront h.isName

theorem Opens.keeps_set (h : fs.Opens p around name) (contents : Contents) :
    Keeps fs (fs.set (name :: around) (.file contents)) :=
  keeps_set_file h.free contents

theorem Opens.unique {beside : Place} {other : Text} (h : fs.Opens p around name)
    (h' : fs.Opens p beside other) : name :: around = other :: beside := by
  obtain ⟨names, hsplit, hfollow⟩ := h.split
  obtain ⟨names', hsplit', hfollow'⟩ := h'.split
  obtain ⟨rfl, hname⟩ := List.append_inj' (hsplit.symm.trans hsplit') rfl
  cases hname
  cases hfollow.symm.trans hfollow'
  rfl

theorem contents_eq_ok_iff {contents : Contents} :
    fs.contents p = .ok contents ↔
      ∃ place, fs.locate p = .ok place ∧ fs.get? place = some (.file contents) := by
  rw [FileSystem.contents, bind_eq_ok_iff]
  apply exists_congr
  intro place
  apply and_congr_right
  intro _
  split
  · next h => simp [h, pure, Except.pure]
  · next h => simp [h, throw, throwThe, MonadExceptOf.throw]
  · next h => simp [h, throw, throwThe, MonadExceptOf.throw]

theorem readText_eq_ok_iff {t : Text} :
    fs.readText p = .ok t ↔
      ∃ place, fs.locate p = .ok place ∧ fs.get? place = some (.file (.text t)) := by
  rw [readText, bind_eq_ok_iff, ← contents_eq_ok_iff]
  constructor
  · rintro ⟨contents, h, hread⟩
    cases contents with
    | text s =>
      cases hread
      exact h
    | binary bytes => cases hread
  · intro h
    exact ⟨.text t, h, rfl⟩

theorem write_eq_ok_iff {contents : Contents} :
    fs.write p contents = .ok later ↔
      ∃ around name, fs.openForWriting p = .ok (name :: around) ∧ fs.Opens p around name ∧
        later = fs.set (name :: around) (.file contents) := by
  rw [write, bind_eq_ok_iff]
  constructor
  · rintro ⟨place, hopen, h⟩
    cases h
    obtain ⟨around, name, rfl, hopens⟩ := opens_of_openForWriting hopen
    exact ⟨around, name, hopen, hopens, rfl⟩
  · rintro ⟨around, name, hopen, -, rfl⟩
    exact ⟨_, hopen, rfl⟩

theorem Opens.write_eq (h : fs.Opens p around name) (contents : Contents) :
    fs.write p contents = .ok (fs.set (name :: around) (.file contents)) :=
  write_eq_ok_iff.2 ⟨around, name, h.openForWriting_eq, h, rfl⟩

theorem Opens.readText_of_get? {t : Text} (h : fs.Opens p around name) (hk : Keeps fs later)
    (hget : later.get? (name :: around) = some (.file (.text t))) : later.readText p = .ok t :=
  readText_eq_ok_iff.2 ⟨_, h.locate hk (by rw [hget]; rfl), hget⟩

/-- A path leads to the same place as another one. -/
def Same (fs : FileSystem) (p q : Path) : Prop :=
  ∃ place, fs.locate p = .ok place ∧ fs.locate q = .ok place

theorem Keeps.same (hk : Keeps fs later) {q : Path} (h : fs.Same p q) : later.Same p q := by
  obtain ⟨place, hp, hq⟩ := h
  exact ⟨place, hk.locate hp, hk.locate hq⟩

theorem createDirectory_eq_ok (h : fs.createDirectory p = .ok later) :
    ∃ around name, fs.get? (name :: around) = none ∧ fs.isDirectoryAt around = true ∧ IsName name ∧
      later = fs.set (name :: around) .directory ∧ later.locate p = .ok (name :: around) := by
  obtain ⟨⟨around, name⟩, hnew, h⟩ := bind_eq_ok_iff.1 h
  obtain ⟨hshort, h⟩ := ite_throw_eq_ok_iff.1 h
  obtain ⟨hnone, h⟩ := ite_throw_eq_ok_iff.1 h
  cases h
  obtain ⟨blanks, hnames⟩ := names_of_newPlace hnew
  have hnone : fs.get? (name :: around) = none := by simpa using hnone
  have hself := get?_set_self fs (List.cons_ne_nil name around) .directory
  refine ⟨around, name, hnone, hnames.directory, hnames.isName, rfl, ?_⟩
  apply hnames.locate
  · exact keeps_set (List.cons_ne_nil name around) fun _ => rfl
  · simpa using hshort
  · rw [hself]
    rfl
  · exact .inr (isDirectoryAt_iff.2 hself)

inductive OnTheWay : Path → Path → Prop
  | here (p : Path) : OnTheWay p p
  | up {p q r : Path} (h : Path.parent? p = some q) (hr : OnTheWay q r) : OnTheWay p r

/-- All that is new are directories on the way to a path. -/
structure Adds (fs later : FileSystem) (p : Path) : Prop extends Keeps fs later where
  same_or_new : ∀ place, later.get? place = fs.get? place ∨
    (fs.get? place = none ∧ later.get? place = some .directory ∧
      ∃ r, OnTheWay p r ∧ later.locate r = .ok place)

theorem Adds.refl (fs : FileSystem) (p : Path) : Adds fs fs p :=
  ⟨.refl fs, fun _ => .inl rfl⟩

theorem Adds.get?_eq {entry : Entry} (h : Adds fs later p) (hp : fs.get? place = some entry) :
    later.get? place = some entry := by
  rcases h.same_or_new place with hsame | ⟨hnone, -⟩
  · rw [hsame, hp]
  · rw [hnone] at hp
    cases hp

theorem Adds.up {q : Path} (hq : Path.parent? p = some q) (h : Adds fs later q) : Adds fs later p where
  toKeeps := h.toKeeps
  same_or_new place := by
    rcases h.same_or_new place with hsame | ⟨hnone, hnew, r, hr, hlocate⟩
    · exact .inl hsame
    · exact .inr ⟨hnone, hnew, r, .up hq hr, hlocate⟩

theorem Adds.trans {last : FileSystem} (h : Adds fs later p) (h' : Adds later last p) :
    Adds fs last p where
  toKeeps := h.toKeeps.trans h'.toKeeps
  same_or_new place := by
    rcases h'.same_or_new place with hsame | ⟨hnone, hnew⟩
    · rw [hsame]
      rcases h.same_or_new place with hold | ⟨hnone, hdirectory, r, hr, hlocate⟩
      · exact .inl hold
      · exact .inr ⟨hnone, hdirectory, r, hr, h'.toKeeps.locate hlocate⟩
    · rcases h.same_or_new place with hold | ⟨-, hdirectory, -⟩
      · exact .inr ⟨hold ▸ hnone, hnew⟩
      · rw [hnone] at hdirectory
        cases hdirectory

theorem adds_of_createDirectory (h : fs.createDirectory p = .ok later) : Adds fs later p := by
  obtain ⟨around, name, hnone, -, -, rfl, hlocate⟩ := createDirectory_eq_ok h
  have hne := List.cons_ne_nil name around
  refine ⟨keeps_set hne fun _ => rfl, ?_⟩
  intro place
  by_cases hplace : place = name :: around
  · subst hplace
    exact .inr ⟨hnone, get?_set_self fs hne _, p, .here p, hlocate⟩
  · exact .inl (get?_set_of_ne fs hplace _)

theorem adds_createDirectories (fs : FileSystem) (p : Path) :
    Adds fs (fs.createDirectories p).2 p := by
  fun_induction createDirectories fs p with
  | case1 p | case3 p | case7 p => exact .refl fs p
  | case2 p hne made hmade => exact adds_of_createDirectory hmade
  | case4 p hne hmissing around haround e made hmade ih =>
    rw [hmade] at ih
    exact ih.up haround
  | case5 p hne hmissing around haround made hmade last hlast ih =>
    rw [hmade] at ih
    exact (ih.up haround).trans (adds_of_createDirectory hlast)
  | case6 p hne hmissing around haround made hmade e hlast ih =>
    rw [hmade] at ih
    exact ih.up haround

theorem put_put (place : Place) (old new : Entry) (entries : List (Place × Entry)) :
    put place new (put place old entries) = put place new entries := by
  induction entries with
  | nil => simp [put]
  | cons first entries ih =>
    by_cases h : first.1 = place
    · simp [put, h]
    · simp [put, h, ih]

theorem set_set (fs : FileSystem) (place : Place) (old new : Entry) :
    (fs.set place old).set place new = fs.set place new := by
  simp only [set, put_put]

theorem copy_eq_ok {source target : Path} (h : fs.copy source target = .ok later) :
    ∃ around name contents, fs.Opens target around name ∧
      later = fs.set (name :: around) (.file contents) ∧
      (later.Same target source ∧ contents = .text [] ∨
        ¬ later.Same target source ∧ fs.contents source = .ok contents) := by
  obtain ⟨before, hbefore, h⟩ := bind_eq_ok_iff.1 h
  obtain ⟨place, hopen, h⟩ := bind_eq_ok_iff.1 h
  obtain ⟨contents, hread, h⟩ := bind_eq_ok_iff.1 h
  obtain ⟨around, name, rfl, hopens⟩ := opens_of_openForWriting hopen
  rw [set_set] at h
  cases h
  refine ⟨around, name, contents, hopens, rfl, ?_⟩
  obtain ⟨read, hlocate, hget⟩ := contents_eq_ok_iff.1 hread
  obtain ⟨found, hfound, hthere⟩ := contents_eq_ok_iff.1 hbefore
  have hself (entry : Entry) := get?_set_self fs (List.cons_ne_nil name around) entry
  have hkeeps := hopens.keeps_set contents
  have hsource : (fs.set (name :: around) (.file contents)).locate source = .ok found := hkeeps.locate hfound
  have htarget : (fs.set (name :: around) (.file contents)).locate target = .ok (name :: around) :=
    hopens.locate hkeeps (by rw [hself]; rfl)
  obtain rfl : found = read :=
    Except.ok.inj (((hopens.keeps_set (.text [])).locate hfound).symm.trans hlocate)
  by_cases hplace : found = name :: around
  · subst hplace
    rw [hself] at hget
    cases hget
    exact .inl ⟨⟨_, htarget, hsource⟩, rfl⟩
  · right
    constructor
    · rintro ⟨place, htarget', hsource'⟩
      cases htarget.symm.trans htarget'
      exact hplace (Except.ok.inj (hsource.symm.trans hsource'))
    · rw [get?_set_of_ne fs hplace] at hget
      exact contents_eq_ok_iff.2 ⟨found, hfound, hget⟩

end FileSystem
end Docmark
