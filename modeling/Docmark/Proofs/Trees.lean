import Mathlib.Data.List.Induction
import Docmark.Proofs.Files

namespace Docmark

namespace FileSystem

open Docmark.Path

variable {fs later : FileSystem} {place around : Place} {p : Path} {name : Text} {names inner : List Text}

theorem checkLength_eq_ok_iff : checkLength p = .ok () ↔ p ≠ [] ∧ Text.byteSize p < 4096 := by
  unfold checkLength
  split
  · next h => simp [List.isEmpty_iff.1 h]
  · next h =>
    rw [List.isEmpty_iff] at h
    split
    · next hlong => simp [Nat.not_lt.2 hlong]
    · next hlong => simp [h, Nat.lt_of_not_le hlong]

theorem follow_name_eq_ok_iff (h : IsName name) :
    fs.follow around [name] = .ok place ↔
      fs.isDirectoryAt around = true ∧ isTooLong name = false ∧ (fs.get? (name :: around)).isSome ∧
        name :: around = place := by
  cases hd : fs.isDirectoryAt around with
  | false => simp [follow, hd]
  | true =>
    rw [follow_name hd h]
    cases isTooLong name with
    | true => simp
    | false => cases fs.get? (name :: around) <;> simp

theorem follow_blank_eq_ok_iff :
    fs.follow around [[]] = .ok place ↔ fs.isDirectoryAt around = true ∧ around = place := by
  cases hd : fs.isDirectoryAt around <;> simp [follow, hd]

theorem follow_append_eq_ok_iff {names more : List Text} :
    fs.follow around (names ++ more) = .ok place ↔
      ∃ between, fs.follow around names = .ok between ∧ fs.follow between more = .ok place := by
  rw [follow_append, bind_eq_ok_iff]

theorem checkLength_of_join (hp : p ≠ []) (h : IsName name) (hlength : checkLength (join p name) = .ok ()) :
    checkLength p = .ok () := by
  rw [checkLength_eq_ok_iff] at hlength ⊢
  exact ⟨hp, Nat.lt_of_le_of_lt (byteSize_le_join h p) hlength.2⟩

theorem locate_join_iff (hp : p ≠ []) (h : IsName name) :
    fs.locate (join p name) = .ok place ↔
      checkLength (join p name) = .ok () ∧ ∃ around, fs.locate p = .ok around ∧
        fs.follow around [name] = .ok place := by
  have hstart : fs.startOf (join p name) = fs.startOf p := by
    rw [startOf, startOf, isAbsolute_join hp h]
  rw [locate_eq_ok_iff, hstart]
  apply and_congr_right
  intro hlength
  obtain ⟨names, blanks, hsplit, hblank, -, hjoin⟩ := splitOn_join hp h
  simp only [locate_eq_ok_iff, checkLength_of_join hp h hlength, true_and, hsplit, hjoin,
    follow_append_eq_ok_iff]
  constructor
  · rintro ⟨around, hnames, hname⟩
    refine ⟨around, ⟨around, hnames, ?_⟩, hname⟩
    obtain rfl | rfl := hblank
    · rfl
    · exact follow_blank_eq_ok_iff.2 ⟨((follow_name_eq_ok_iff h).1 hname).1, rfl⟩
  · rintro ⟨around, ⟨between, hnames, hblanks⟩, hname⟩
    obtain rfl : between = around := by
      obtain rfl | rfl := hblank
      · exact Except.ok.inj hblanks
      · exact (follow_blank_eq_ok_iff.1 hblanks).2
    exact ⟨between, hnames, hname⟩

theorem exists_of_locate_join (hp : p ≠ []) (h : IsName name) (hlocate : fs.locate (join p name) = .ok place) :
    ∃ around, place = name :: around := by
  obtain ⟨-, around, -, hfollow⟩ := (locate_join_iff hp h).1 hlocate
  obtain ⟨-, -, -, rfl⟩ := (follow_name_eq_ok_iff h).1 hfollow
  exact ⟨around, rfl⟩

theorem exists_file (hthere : (fs.get? place).isSome) (h : fs.isDirectoryAt place = false) :
    ∃ contents, fs.get? place = some (.file contents) := by
  obtain ⟨entry, hentry⟩ := Option.isSome_iff_exists.1 hthere
  cases entry with
  | file contents => exact ⟨contents, hentry⟩
  | directory =>
    rw [isDirectoryAt_iff.2 hentry] at h
    cases h

theorem isSome_of_isDirectoryAt (h : fs.isDirectoryAt place = true) : (fs.get? place).isSome := by
  rw [isDirectoryAt_iff.1 h]
  rfl

theorem Keeps.isDirectory (h : Keeps fs later) (hp : fs.isDirectory p = true) : later.isDirectory p = true := by
  rw [FileSystem.isDirectory, find, decide_eq_true_eq] at hp ⊢
  split at hp
  · next place hlocate =>
    rw [h.locate hlocate]
    exact isDirectoryAt_iff.1 (h.directory place (isDirectoryAt_iff.2 hp))
  · cases hp

structure IsTree (fs : FileSystem) : Prop where
  inside : ∀ name around, (fs.get? (name :: around)).isSome → fs.isDirectoryAt around = true
  named : ∀ name around, (fs.get? (name :: around)).isSome → IsName name

theorem mem_entries_of_get? {contents : Contents} (h : fs.get? place = some (.file contents)) :
    (place, .file contents) ∈ fs.entries := by
  unfold get? at h
  split at h
  · cases h
  · obtain ⟨before, behind, hentries, -⟩ := List.lookup_eq_some_iff.1 h
    rw [hentries]
    exact List.mem_append_right before List.mem_cons_self

theorem exists_mem_entries (hne : place ≠ []) (hthere : (fs.get? place).isSome) :
    ∃ entry, (place, entry) ∈ fs.entries := by
  rw [get?, if_neg (by simpa using hne)] at hthere
  obtain ⟨⟨found, entry⟩, hmem, heq⟩ := List.lookup_isSome_iff.1 hthere
  obtain rfl : place = found := eq_of_beq heq
  exact ⟨entry, hmem⟩

theorem isTree_of_entries
    (h : ∀ found ∈ fs.entries, fs.isDirectoryAt found.1.tail = true ∧ IsName (found.1.headD [])) :
    fs.IsTree := by
  have hentry (name : Text) (around : Place) (hthere : (fs.get? (name :: around)).isSome) :
      fs.isDirectoryAt around = true ∧ IsName name := by
    obtain ⟨entry, hmem⟩ := exists_mem_entries (List.cons_ne_nil name around) hthere
    exact h _ hmem
  exact ⟨fun name around hthere => (hentry name around hthere).1,
    fun name around hthere => (hentry name around hthere).2⟩

theorem IsTree.set (h : fs.IsTree) {entry : Entry} (hd : fs.isDirectoryAt around = true)
    (hn : IsName name) (hfree : fs.isDirectoryAt (name :: around) = true → entry = .directory) :
    (fs.set (name :: around) entry).IsTree := by
  have hkeeps : Keeps fs (fs.set (name :: around) entry) := keeps_set (List.cons_ne_nil name around) hfree
  have hold (other : Text) (place : Place)
      (hp : ((fs.set (name :: around) entry).get? (other :: place)).isSome) :
      (other :: place = name :: around) ∨ (fs.get? (other :: place)).isSome := by
    by_cases heq : other :: place = name :: around
    · exact .inl heq
    · rw [get?_set_of_ne fs heq] at hp
      exact .inr hp
  constructor
  · intro other place hp
    obtain heq | hp := hold other place hp
    · cases heq
      exact hkeeps.directory around hd
    · exact hkeeps.directory place (h.inside other place hp)
  · intro other place hp
    obtain heq | hp := hold other place hp
    · cases heq
      exact hn
    · exact h.named other place hp

theorem IsTree.set_file (h : fs.IsTree) (hopens : fs.Opens p around name) (contents : Contents) :
    (fs.set (name :: around) (.file contents)).IsTree :=
  h.set hopens.directory hopens.isName fun hd => absurd (hopens.free.symm.trans hd) Bool.false_ne_true

theorem IsTree.of_createDirectory (h : fs.IsTree) (hmade : fs.createDirectory p = .ok later) :
    later.IsTree := by
  obtain ⟨around, name, -, hd, hn, rfl, -⟩ := createDirectory_eq_ok hmade
  exact h.set hd hn fun _ => rfl

theorem createDirectories_induction {motive : FileSystem → Prop}
    (step : ∀ {fs later p}, motive fs → createDirectory fs p = .ok later → motive later) (h : motive fs)
    (p : Path) : motive (fs.createDirectories p).2 := by
  fun_induction FileSystem.createDirectories fs p with
  | case1 p | case3 p | case7 p => exact h
  | case2 p hne made hmade => exact step h hmade
  | case4 p hne hmissing around haround e made hmade ih =>
    rw [hmade] at ih
    exact ih
  | case5 p hne hmissing around haround made hmade last hlast ih =>
    rw [hmade] at ih
    exact step ih hlast
  | case6 p hne hmissing around haround made hmade e hlast ih =>
    rw [hmade] at ih
    exact ih

theorem IsTree.createDirectories (h : fs.IsTree) (p : Path) : (fs.createDirectories p).2.IsTree :=
  createDirectories_induction of_createDirectory h p

def HasShortNames (fs : FileSystem) : Prop :=
  ∀ name around, (fs.get? (name :: around)).isSome → isTooLong name = false

namespace HasShortNames

theorem of_entries (h : ∀ found ∈ fs.entries, isTooLong (found.1.headD []) = false) : fs.HasShortNames := by
  intro name around hthere
  obtain ⟨entry, hmem⟩ := exists_mem_entries (List.cons_ne_nil name around) hthere
  exact h _ hmem

theorem set (h : fs.HasShortNames) (hname : isTooLong name = false) (around : Place) (entry : Entry) :
    (fs.set (name :: around) entry).HasShortNames := by
  intro other place hthere
  by_cases hsame : other :: place = name :: around
  · cases hsame
    exact hname
  · rw [get?_set_of_ne fs hsame] at hthere
    exact h other place hthere

theorem of_createDirectory (h : fs.HasShortNames) (hmade : fs.createDirectory p = .ok later) :
    later.HasShortNames := by
  obtain ⟨⟨around, name⟩, -, hmade⟩ := bind_eq_ok_iff.1 hmade
  obtain ⟨hshort, hmade⟩ := ite_throw_eq_ok_iff.1 hmade
  obtain ⟨-, hmade⟩ := ite_throw_eq_ok_iff.1 hmade
  cases hmade
  exact h.set (by simpa using hshort) around .directory

theorem createDirectories (h : fs.HasShortNames) (p : Path) : (fs.createDirectories p).2.HasShortNames :=
  createDirectories_induction of_createDirectory h p

end HasShortNames

theorem isSome_lookup {entries : List (Place × Entry)} {entry : Entry} (h : (place, entry) ∈ entries) :
    (entries.lookup place).isSome := by
  rw [List.lookup_isSome_iff]
  exact ⟨_, h, beq_self_eq_true place⟩

theorem mem_below_iff {found : Path × Bool} :
    found ∈ fs.below p ↔ ∃ around, fs.locate p = .ok around ∧
      (found = (p, fs.isDirectoryAt around) ∨ ∃ names, names ≠ [] ∧
        (fs.get? (names.reverse ++ around)).isSome ∧
        checkLength (names.dropLast.foldl join p) = .ok () ∧
        found = (names.foldl join p, fs.isDirectoryAt (names.reverse ++ around))) := by
  have hnames (names : List Text) (around : Place) :
      ((names.reverse ++ around).take ((names.reverse ++ around).length - around.length)).reverse = names := by
    rw [List.length_append, Nat.add_sub_cancel, List.take_left, List.reverse_reverse]
  unfold below
  split
  · next e hlocate =>
    rw [hlocate]
    simp
  · next around hlocate =>
    simp only [hlocate, Except.ok.injEq, exists_eq_left', List.mem_cons, List.mem_filterMap]
    apply or_congr_right
    constructor
    · rintro ⟨⟨inner, entry⟩, hmem, hfound⟩
      rw [Option.ite_none_right_eq_some] at hfound
      obtain ⟨hinner, hfound⟩ := hfound
      rw [Bool.and_eq_true, decide_eq_true_eq, List.isSuffixOf_iff_suffix] at hinner
      obtain ⟨⟨reversed, rfl⟩, hlength⟩ := hinner
      obtain ⟨names, rfl⟩ : ∃ names : List Text, reversed = names.reverse :=
        ⟨reversed.reverse, reversed.reverse_reverse.symm⟩
      have hne : names ≠ [] := by
        rintro rfl
        exact Nat.lt_irrefl _ hlength
      rw [hnames] at hfound
      refine ⟨names, hne, ?_, ?_⟩
      · rw [get?, if_neg (by simp [hne])]
        exact isSome_lookup hmem
      · cases hshort : checkLength (names.dropLast.foldl join p) with
        | error e => simp [hshort] at hfound
        | ok u => exact ⟨rfl, by simpa [hshort] using hfound.symm⟩
    · rintro ⟨names, hne, hthere, hshort, rfl⟩
      obtain ⟨entry, hmem⟩ := exists_mem_entries (by simp [hne]) hthere
      refine ⟨_, hmem, ?_⟩
      have hinner : (around.isSuffixOf (names.reverse ++ around) &&
          decide (around.length < (names.reverse ++ around).length)) = true := by
        rw [Bool.and_eq_true, decide_eq_true_eq, List.isSuffixOf_iff_suffix, List.length_append,
          List.length_reverse]
        exact ⟨List.suffix_append _ _, Nat.lt_add_of_pos_left (List.length_pos_iff.2 hne)⟩
      rw [if_pos hinner, hnames, hshort]

theorem exists_names_of_mem_below {found : Path × Bool} (h : found ∈ fs.below p) :
    ∃ around, fs.locate p = .ok around ∧
      (found = (p, fs.isDirectoryAt around) ∨ ∃ names, names ≠ [] ∧ found.1 = names.foldl join p ∧
        (fs.get? (names.reverse ++ around)).isSome) := by
  obtain ⟨around, hlocate, rfl | ⟨names, hne, hthere, -, rfl⟩⟩ := mem_below_iff.1 h
  · exact ⟨around, hlocate, .inl rfl⟩
  · exact ⟨around, hlocate, .inr ⟨names, hne, rfl, hthere⟩⟩

theorem checkLength_of_foldl_join (hp : p ≠ []) (hn : ∀ n ∈ inner, IsName n)
    (hlength : checkLength (inner.foldl join p) = .ok ()) : checkLength p = .ok () := by
  induction inner generalizing p with
  | nil => exact hlength
  | cons n inner ih =>
    have hrest := ih (join_ne_nil hp n) (fun m hm => hn m (List.mem_cons_of_mem n hm)) hlength
    exact checkLength_of_join hp (hn n List.mem_cons_self) hrest

theorem IsTree.locate_below (h : fs.IsTree) (hk : Keeps fs later) (hp : fs.locate p = .ok around)
    {names : List Text} (hthere : (fs.get? (names.reverse ++ around)).isSome)
    (hlocate : later.locate (names.foldl join p) = .ok place) :
    names.reverse ++ around = place ∧ fs.locate (names.foldl join p) = .ok place := by
  induction names using List.reverseRecOn generalizing place with
  | nil =>
    cases (hk.locate hp).symm.trans hlocate
    exact ⟨rfl, hp⟩
  | append_singleton names name ih =>
    rw [List.reverse_append, List.reverse_singleton, List.singleton_append, List.cons_append] at hthere ⊢
    rw [List.foldl_append, List.foldl_cons, List.foldl_nil] at hlocate ⊢
    have hd := h.inside _ _ hthere
    have hn := h.named _ _ hthere
    have hthere' := isSome_of_isDirectoryAt hd
    have hne := foldl_join_ne_nil (checkLength_eq_ok_iff.1 (locate_eq_ok_iff.1 hp).1).1 names
    obtain ⟨hlength, between, hbetween, hfollow⟩ := (locate_join_iff hne hn).1 hlocate
    obtain ⟨rfl, hlocate'⟩ := ih hthere' hbetween
    obtain ⟨-, hshort, -, rfl⟩ := (follow_name_eq_ok_iff hn).1 hfollow
    have hfollow' := (follow_name_eq_ok_iff hn).2 ⟨hd, hshort, hthere, rfl⟩
    exact ⟨rfl, (locate_join_iff hne hn).2 ⟨hlength, _, hlocate', hfollow'⟩⟩

namespace IsTree

theorem isName_of_mem (h : fs.IsTree) (hthere : (fs.get? (names.reverse ++ around)).isSome) :
    ∀ n ∈ names, IsName n := by
  induction names using List.reverseRecOn with
  | nil => simp
  | append_singleton names name ih =>
    rw [List.reverse_append, List.reverse_singleton, List.singleton_append, List.cons_append] at hthere
    have hd := h.inside _ _ hthere
    intro n hn
    obtain hn | hn := List.mem_append.1 hn
    · exact ih (isSome_of_isDirectoryAt hd) n hn
    · rw [List.mem_singleton.1 hn]
      exact h.named _ _ hthere

theorem isDirectoryAt_of_append (h : fs.IsTree) (hne : inner ≠ [])
    (hthere : (fs.get? (inner.reverse ++ place)).isSome) : fs.isDirectoryAt place = true := by
  induction inner using List.reverseRecOn with
  | nil => exact absurd rfl hne
  | append_singleton inner name ih =>
    rw [List.reverse_append, List.reverse_singleton, List.singleton_append, List.cons_append] at hthere
    have hd := h.inside _ _ hthere
    by_cases hinner : inner = []
    · rwa [hinner] at hd
    · exact ih hinner (isSome_of_isDirectoryAt hd)

theorem locate_foldl_join (h : fs.IsTree) (hshort : fs.HasShortNames) (hp : fs.locate p = .ok around)
    (hthere : (fs.get? (names.reverse ++ around)).isSome)
    (hlength : checkLength (names.foldl join p) = .ok ()) :
    fs.locate (names.foldl join p) = .ok (names.reverse ++ around) := by
  induction names using List.reverseRecOn with
  | nil => exact hp
  | append_singleton names name ih =>
    rw [List.reverse_append, List.reverse_singleton, List.singleton_append, List.cons_append] at hthere ⊢
    rw [List.foldl_append, List.foldl_cons, List.foldl_nil] at hlength ⊢
    have hd := h.inside _ _ hthere
    have hn := h.named _ _ hthere
    have hne := foldl_join_ne_nil (checkLength_eq_ok_iff.1 (locate_eq_ok_iff.1 hp).1).1 names
    have hlocate := ih (isSome_of_isDirectoryAt hd) (checkLength_of_join hne hn hlength)
    exact (locate_join_iff hne hn).2 ⟨hlength, _, hlocate,
      (follow_name_eq_ok_iff hn).2 ⟨hd, hshort _ _ hthere, hthere, rfl⟩⟩

end IsTree

/-- What comes of writing files of some names, and of making directories: files of other names are as
they were. -/
structure Later (written : Text → Prop) (fs later : FileSystem) : Prop extends Keeps fs later where
  kept : ∀ {name around entry}, ¬ written name → fs.get? (name :: around) = some entry →
    later.get? (name :: around) = some entry
  old : ∀ {name around contents}, ¬ written name → later.get? (name :: around) = some (.file contents) →
    fs.get? (name :: around) = some (.file contents)

namespace Later

variable {written more : Text → Prop} {last : FileSystem} {t : Text}

theorem refl (written : Text → Prop) (fs : FileSystem) : Later written fs fs :=
  ⟨.refl fs, fun _ h => h, fun _ h => h⟩

theorem trans (h : Later written fs later) (h' : Later written later last) : Later written fs last :=
  ⟨h.toKeeps.trans h'.toKeeps, fun hn hget => h'.kept hn (h.kept hn hget),
    fun hn hget => h.old hn (h'.old hn hget)⟩

theorem mono (h : Later written fs later) (hw : ∀ name, written name → more name) : Later more fs later :=
  ⟨h.toKeeps, fun hn => h.kept fun hname => hn (hw _ hname),
    fun hn => h.old fun hname => hn (hw _ hname)⟩

theorem of_adds (h : Adds fs later p) (written : Text → Prop) : Later written fs later where
  toKeeps := h.toKeeps
  kept _ hget := h.get?_eq hget
  old {name around contents} _ hget := by
    obtain hsame | ⟨-, hnew, -⟩ := h.same_or_new (name :: around)
    · rw [← hsame, hget]
    · rw [hnew] at hget
      cases hget

theorem of_opens (h : fs.Opens p around name) (hw : written name) (contents : Contents) :
    Later written fs (fs.set (name :: around) (.file contents)) := by
  have hother {other : Text} {place : Place} (hn : ¬ written other) : other :: place ≠ name :: around := by
    intro heq
    cases heq
    exact hn hw
  refine ⟨h.keeps_set contents, ?_, ?_⟩
  · intro other place entry hn hget
    rwa [get?_set_of_ne fs (hother hn)]
  · intro other place contents' hn hget
    rwa [get?_set_of_ne fs (hother hn)] at hget

theorem readText (h : Later written fs later) (hp : fs.locate p = .ok (name :: around))
    (hn : ¬ written name) (hread : fs.readText p = .ok t) : later.readText p = .ok t := by
  rw [readText_eq_ok_iff] at hread ⊢
  obtain ⟨place, hlocate, hget⟩ := hread
  cases hp.symm.trans hlocate
  exact ⟨_, h.toKeeps.locate hp, h.kept hn hget⟩

theorem readText_join_iff (h : Later written fs later) (htree : fs.IsTree) (hp : fs.locate p = .ok around)
    (hname : IsName name) (hn : ¬ written name) :
    later.readText (join p name) = .ok t ↔ fs.readText (join p name) = .ok t := by
  have hne := (checkLength_eq_ok_iff.1 (locate_eq_ok_iff.1 hp).1).1
  simp only [readText_eq_ok_iff]
  constructor
  · rintro ⟨place, hlocate, hget⟩
    obtain ⟨hlength, between, hbetween, hfollow⟩ := (locate_join_iff hne hname).1 hlocate
    cases (h.toKeeps.locate hp).symm.trans hbetween
    obtain ⟨-, hshort, -, rfl⟩ := (follow_name_eq_ok_iff hname).1 hfollow
    have hget' := h.old hn hget
    have hthere : (fs.get? (name :: around)).isSome := by
      rw [hget']
      rfl
    have hfollow' :=
      (follow_name_eq_ok_iff hname).2 ⟨htree.inside name around hthere, hshort, hthere, rfl⟩
    exact ⟨_, (locate_join_iff hne hname).2 ⟨hlength, around, hp, hfollow'⟩, hget'⟩
  · rintro ⟨place, hlocate, hget⟩
    obtain ⟨-, between, hbetween, hfollow⟩ := (locate_join_iff hne hname).1 hlocate
    obtain ⟨-, -, -, rfl⟩ := (follow_name_eq_ok_iff hname).1 hfollow
    exact ⟨_, h.toKeeps.locate hlocate, h.kept hn hget⟩

end Later

end FileSystem
end Docmark
