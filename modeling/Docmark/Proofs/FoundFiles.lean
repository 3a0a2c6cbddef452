import Docmark.Proofs.Search

namespace Docmark

namespace FileSystem

theorem keeps_withSettings (fs : FileSystem) (p : Path) : Keeps fs (fs.withSettings p) := by
  obtain hsame | ⟨around, name, hopens, -, hset⟩ := fs.withSettings_cases p
  · rw [hsame]
    exact .refl fs
  · rw [hset]
    exact hopens.keeps_set _

theorem HasShortNames.withSettings {fs : FileSystem} (h : fs.HasShortNames) (p : Path) :
    (fs.withSettings p).HasShortNames := by
  obtain hsame | ⟨around, name, hopens, -, hset⟩ := fs.withSettings_cases p
  · rwa [hsame]
  · rw [hset]
    exact h.set hopens.short around _

end FileSystem

namespace Command.Search

open FileSystem

variable {s : Search} {files : FileSystem} {p : Path}

/-- A documentation file below the root of a search, in a directory of the wanted name at any depth or
below one. The root goes by the name it is given by. The path of the directory around the file is not too
long to be looked into. -/
def Finds (s : Search) (files : FileSystem) (p : Path) : Prop :=
  ∃ (around : Place) (names : List Text) (contents : Contents), files.locate s.root = .ok around ∧
    files.get? (names.reverse ++ around) = some (.file contents) ∧ p = names.foldl Path.join s.root ∧
    p.extension? = some ("xml" : Text) ∧ (nameOf s.root = s.directory ∨ s.directory ∈ names.dropLast) ∧
    checkLength (names.dropLast.foldl Path.join s.root) = .ok ()

theorem nameOf_join {name : Text} (h : Path.IsName name) (p : Path) : nameOf (p.join name) = name := by
  rw [nameOf, Path.fileName?_join h, Option.getD_some]

theorem finds_of_mem_foundIn (htree : files.IsTree) (h : p ∈ s.foundIn files) : s.Finds files p := by
  obtain ⟨d, hd, hname, hp, hxml⟩ := mem_foundIn_iff.1 h
  obtain ⟨around, hroot, hfound⟩ := mem_below_iff.1 hd
  -- The directory is the root, or behind names that lead to it from there.
  obtain ⟨outer, rfl, hplace, hwanted⟩ : ∃ outer : List Text, d = outer.foldl Path.join s.root ∧
      files.isDirectoryAt (outer.reverse ++ around) = true ∧
      (nameOf s.root = s.directory ∨ s.directory ∈ outer) := by
    obtain hfound | ⟨outer, hne, hthere, -, hfound⟩ := hfound
    · obtain ⟨rfl, hdirectory⟩ := Prod.mk.inj hfound
      exact ⟨[], rfl, hdirectory.symm, .inl hname⟩
    · obtain ⟨rfl, hdirectory⟩ := Prod.mk.inj hfound
      refine ⟨outer, rfl, hdirectory.symm, .inr ?_⟩
      obtain rfl | ⟨outer, last, rfl⟩ := List.eq_nil_or_concat' outer
      · exact absurd rfl hne
      · have hlast := htree.isName_of_mem hthere last (by simp)
        rw [List.foldl_append, List.foldl_cons, List.foldl_nil, nameOf_join hlast] at hname
        simp [hname]
  obtain ⟨place, hlocate, hsame | ⟨inner, hne, hthere, hlength, hfile⟩⟩ := mem_below_iff.1 hp
  · -- What is found in front of everything else is the directory itself.
    obtain ⟨rfl, -⟩ := htree.locate_below (.refl files) hroot (isSome_of_isDirectoryAt hplace) hlocate
    cases (Prod.mk.inj hsame).2.trans hplace
  · obtain ⟨rfl, -⟩ := htree.locate_below (.refl files) hroot (isSome_of_isDirectoryAt hplace) hlocate
    obtain ⟨rfl, hplain⟩ := Prod.mk.inj hfile
    obtain ⟨contents, hcontents⟩ := exists_file hthere hplain.symm
    refine ⟨around, outer ++ inner, contents, hroot, ?_, ?_, hxml, ?_, ?_⟩
    · rw [List.reverse_append, List.append_assoc, hcontents]
    · rw [List.foldl_append]
    · rw [List.dropLast_append_of_ne_nil hne]
      exact hwanted.imp_right fun hmem => List.mem_append_left _ hmem
    · rw [List.dropLast_append_of_ne_nil hne, List.foldl_append, hlength]

theorem mem_foundIn_of_names (htree : files.IsTree) (hshort : files.HasShortNames) {around : Place}
    (outer : List Text) {inner : List Text} {contents : Contents} (hroot : files.locate s.root = .ok around)
    (hdirectory : files.isDirectoryAt around = true) (hne : inner ≠ [])
    (hget : files.get? ((outer ++ inner).reverse ++ around) = some (.file contents))
    (hp : p = (outer ++ inner).foldl Path.join s.root) (hxml : p.extension? = some ("xml" : Text))
    (hname : nameOf (outer.foldl Path.join s.root) = s.directory)
    (hlength : checkLength ((outer ++ inner).dropLast.foldl Path.join s.root) = .ok ()) :
    p ∈ s.foundIn files := by
  rw [List.reverse_append, List.append_assoc] at hget
  rw [List.dropLast_append_of_ne_nil hne, List.foldl_append] at hlength
  have hthere : (files.get? (inner.reverse ++ (outer.reverse ++ around))).isSome := by
    rw [hget]
    rfl
  have hplace := htree.isDirectoryAt_of_append hne hthere
  have hrootne := (checkLength_eq_ok_iff.1 (locate_eq_ok_iff.1 hroot).1).1
  have hinner : ∀ n ∈ inner.dropLast, Path.IsName n := fun n hn =>
    htree.isName_of_mem hthere n (List.dropLast_subset inner hn)
  have houter := checkLength_of_foldl_join (Path.foldl_join_ne_nil hrootne outer) hinner hlength
  refine mem_foundIn_iff.2 ⟨outer.foldl Path.join s.root, ?_, hname, ?_, hxml⟩
  · refine mem_below_iff.2 ⟨around, hroot, ?_⟩
    obtain rfl | ⟨front, last, rfl⟩ := List.eq_nil_or_concat' outer
    · exact .inl (Prod.ext rfl hdirectory.symm)
    · have hlast := htree.isName_of_mem (isSome_of_isDirectoryAt hplace) last (by simp)
      refine .inr ⟨front ++ [last], by simp, isSome_of_isDirectoryAt hplace, ?_, Prod.ext rfl hplace.symm⟩
      rw [List.foldl_append, List.foldl_cons, List.foldl_nil] at houter
      rw [List.dropLast_concat]
      exact checkLength_of_join (Path.foldl_join_ne_nil hrootne front) hlast houter
  · have hlocate := htree.locate_foldl_join hshort hroot (isSome_of_isDirectoryAt hplace) houter
    refine mem_below_iff.2 ⟨_, hlocate, .inr ⟨inner, hne, hthere, hlength, Prod.ext ?_ ?_⟩⟩
    · rw [hp, List.foldl_append]
    · simp [isDirectoryAt, hget]

theorem mem_foundIn_iff_finds (htree : files.IsTree) (hshort : files.HasShortNames)
    (hroot : files.isDirectory s.root = true) : p ∈ s.foundIn files ↔ s.Finds files p := by
  refine ⟨finds_of_mem_foundIn htree, ?_⟩
  rintro ⟨around, names, contents, hlocate, hget, hp, hxml, hwanted, hlength⟩
  have hdirectory : files.isDirectoryAt around = true := by
    simpa [isDirectory, find, hlocate, isDirectoryAt] using hroot
  obtain rfl | ⟨front, last, rfl⟩ := List.eq_nil_or_concat' names
  · rw [isDirectoryAt_iff, ← List.nil_append around] at hdirectory
    cases hdirectory.symm.trans hget
  · obtain hname | hmem := hwanted
    · exact mem_foundIn_of_names htree hshort [] hlocate hdirectory (by simp) hget hp hxml hname
        hlength
    · -- The names are cut behind the first directory of the wanted name.
      rw [List.dropLast_concat] at hmem
      obtain ⟨outer, more, rfl, -⟩ := List.eq_append_cons_of_mem hmem
      have hsplit : outer ++ s.directory :: more ++ [last] = (outer ++ [s.directory]) ++ (more ++ [last]) := by
        simp
      rw [hsplit] at hget hp hlength
      have hthere : (files.get? ((outer ++ [s.directory] ++ (more ++ [last])).reverse ++ around)).isSome := by
        rw [hget]
        rfl
      have hisName := htree.isName_of_mem hthere s.directory (by simp)
      apply mem_foundIn_of_names htree hshort (outer ++ [s.directory]) hlocate hdirectory (by simp) hget hp
        hxml _ hlength
      rw [List.foldl_append, List.foldl_cons, List.foldl_nil, nameOf_join hisName]

theorem eq_of_components (htree : files.IsTree) {q : Path} (hp : s.Finds files p) (hq : s.Finds files q)
    (h : Path.components p = Path.components q) : p = q := by
  obtain ⟨around, names, contents, hlocate, hget, rfl, -⟩ := hp
  obtain ⟨around', names', contents', hlocate', hget', rfl, -⟩ := hq
  have hroot := (checkLength_eq_ok_iff.1 (locate_eq_ok_iff.1 hlocate).1).1
  have hnames := htree.isName_of_mem (by rw [hget]; rfl : (files.get? (names.reverse ++ around)).isSome)
  have hnames' := htree.isName_of_mem (by rw [hget']; rfl : (files.get? (names'.reverse ++ around')).isSome)
  rw [Path.components_foldl_join hroot hnames, Path.components_foldl_join hroot hnames',
    List.append_cancel_left_eq] at h
  have hinj : Function.Injective Path.Component.name := fun a b hab => Path.Component.name.inj hab
  rw [hinj.list_map h]

theorem eq_of_same (htree : files.IsTree) {q : Path} (hp : s.Finds files p) (hq : s.Finds files q)
    (h : files.Same p q) : p = q := by
  obtain ⟨around, names, contents, hlocate, hget, rfl, -⟩ := hp
  obtain ⟨around', names', contents', hlocate', hget', rfl, -⟩ := hq
  obtain ⟨place, hplace, hplace'⟩ := h
  cases hlocate.symm.trans hlocate'
  obtain ⟨rfl, -⟩ := htree.locate_below (.refl files) hlocate (by rw [hget]; rfl) hplace
  obtain ⟨hnames, -⟩ := htree.locate_below (.refl files) hlocate (by rw [hget']; rfl) hplace'
  rw [List.append_cancel_right_eq, List.reverse_inj] at hnames
  rw [hnames]

theorem mem_filesIn_iff (htree : files.IsTree) (hshort : files.HasShortNames)
    (hroot : files.isDirectory s.root = true) : p ∈ s.filesIn files ↔ s.Finds files p := by
  have hinj : ∀ p ∈ s.foundIn files, ∀ q ∈ s.foundIn files, Path.components p = Path.components q → p = q :=
    fun p hp q hq => eq_of_components htree (finds_of_mem_foundIn htree hp) (finds_of_mem_foundIn htree hq)
  rw [← mem_foundIn_iff_finds htree hshort hroot, ← Path.mem_ascending_iff hinj]
  rfl

end Command.Search

namespace Command

open FileSystem

variable {job : Job} {input : Contents} {outputFor : Path → Path} {ps : List Path}
  {files last : FileSystem} {result : Except Failure Unit} {ending : Ending}

def Job.Fails (job : Job) (files : FileSystem) (input : Contents) (source : Source) (output : Path)
    (cause : Failure) : Prop :=
  job.pageIn files input source = .error cause ∨
    ∃ page fault, job.pageIn files input source = .ok page ∧
      files.write output (.text page) = .error fault ∧ cause = .unwritable output fault

theorem Conversions.exists_done (h : Conversions job input outputFor ps files result last) :
    ∃ before behind, ps = before ++ behind ∧ Conversions job input outputFor before files (.ok ()) last ∧
      (behind = [] ∧ result = .ok () ∨ ∃ p rest cause, behind = p :: rest ∧ result = .error cause ∧
        job.Fails last input (.file p) (outputFor p) cause) := by
  induction h with
  | done files => exact ⟨[], [], rfl, .done files, .inl ⟨rfl, rfl⟩⟩
  | @failed p ps files cause hcause =>
    exact ⟨[], p :: ps, rfl, .done files, .inr ⟨p, ps, cause, rfl, rfl, hcause⟩⟩
  | @next p ps files between last page ws result hpage hdelivered hrest ih =>
    obtain ⟨before, behind, rfl, hbefore, hend⟩ := ih
    exact ⟨p :: before, behind, rfl, .next hpage hdelivered hbefore, hend⟩

theorem Search.mem_inputsIn_iff {s : Search} {settings : Settings} {p : Path} :
    p ∈ s.inputsIn settings files ↔
      p ∈ s.filesIn files ∧ p.fileName?.getD [] ∉ settings.filesToIgnore := by
  rw [Search.inputsIn, List.mem_filter, Search.isIgnored, Settings.ignores]
  simp

theorem Search.ascending_inputsIn (s : Search) (settings : Settings) (files : FileSystem) :
    Path.Ascending (s.inputsIn settings files) :=
  (Path.ascending_ascending _).filter _

namespace Search.Ends

variable {s : Search} {settled start : FileSystem}

theorem of_unmade {cause : FileError} (h : s.Ends job input settled result last)
    (hroot : settled.isDirectory s.root = true)
    (hmade : settled.createDirectories s.output = (.error cause, start)) :
    result = .error (.directoryNotCreated s.output cause) ∧ last = start := by
  cases h with
  | absent habsent => cases habsent.symm.trans hroot
  | unmade hmade' =>
    cases hmade'.symm.trans hmade
    exact ⟨rfl, rfl⟩
  | converted hmade' => cases hmade'.symm.trans hmade

theorem conversions (h : s.Ends job input settled result last) (hroot : settled.isDirectory s.root = true)
    (hmade : settled.createDirectories s.output = (.ok (), start)) :
    Conversions job input s.outputFor (s.inputsIn job.settings start) start result last := by
  cases h with
  | absent habsent => cases habsent.symm.trans hroot
  | unmade hmade' => cases hmade'.symm.trans hmade
  | converted hmade' hconverted =>
    cases hmade'.symm.trans hmade
    exact hconverted

end Search.Ends

/-- A search converts the documentation files below directories of the wanted name that are not to be
ignored, in ascending order and each once, up to the first that fails. The pages of those before it are
written, and nothing else is. -/
theorem search_converts_found_files {arguments : List Text} {a : Arguments} {root out : Path}
    (hparse : Arguments.parse arguments = .ok a) (hsearch : a.search = some root)
    (hout : a.output = some out) {files : FileSystem} (htree : files.IsTree)
    (hshort : files.HasShortNames) (hroot : files.isDirectory root = true) (input : Contents) :
    let result := (run arguments : StateM Environment Ending) (.ofFiles files input)
    let last := result.2.files
    let settled := files.withSettings a.settingsFile
    let job := a.jobIn settled
    let s := a.searchOf root out
    (∀ cause made, settled.createDirectories out = (.error cause, made) →
      result.1 = .failed (.directoryNotCreated out cause) ∧ last = made) ∧
    ∀ start, settled.createDirectories out = (.ok (), start) →
      let inputs := s.inputsIn job.settings start
      (∀ p, p ∈ inputs ↔ s.Finds start p ∧ p.fileName?.getD [] ∉ job.settings.filesToIgnore) ∧
      Path.Ascending inputs ∧ inputs.Nodup ∧ (∀ p ∈ inputs, ∀ q ∈ inputs, start.Same p q → p = q) ∧
      ∃ before behind, inputs = before ++ behind ∧
        Conversions job input s.outputFor before start (.ok ()) last ∧
        (behind = [] ∧ result.1 = .finished ∨ ∃ p rest cause, behind = p :: rest ∧
          result.1 = .failed cause ∧ job.Fails last input (.file p) (s.outputFor p) cause) ∧
        (∀ earlier p later, before = earlier ++ p :: later →
          ∃ page, job.pageIn start input (.file p) = .ok page ∧
            ((∀ q ∈ later, s.outputFor q ≠ s.outputFor p) →
              (∀ directory, a.secondary = some directory →
                ¬ last.Same (copyPath directory (s.outputFor p)) (s.outputFor p)) →
              last.readText (s.outputFor p) = .ok page)) ∧
        ∀ name around contents, (∀ p ∈ before, (s.outputFor p).fileName? ≠ some name) →
          (last.get? (name :: around) = some (.file contents) ↔
            start.get? (name :: around) = some (.file contents)) := by
  intro result last settled job s
  have hsettled := keeps_withSettings files a.settingsFile
  obtain ⟨ending, hends, hending⟩ := search_ends_of_run hparse hsearch hout files input
  change s.Ends job input settled ending last at hends
  change result.1 = _ at hending
  have hthere := hsettled.isDirectory hroot
  constructor
  · intro cause made hmade
    obtain ⟨rfl, hlast⟩ := hends.of_unmade hthere hmade
    exact ⟨hending, hlast⟩
  · intro start hmade inputs
    have hstart : start = (settled.createDirectories out).2 := by rw [hmade]
    have hadds := adds_createDirectories settled out
    rw [← hstart] at hadds
    have htree' : start.IsTree := hstart ▸ (isTree_withSettings htree a.settingsFile).createDirectories out
    have hshort' : start.HasShortNames := hstart ▸ (hshort.withSettings a.settingsFile).createDirectories out
    have hroot' : start.isDirectory s.root = true := hadds.toKeeps.isDirectory hthere
    have hfinds (p : Path) : p ∈ s.filesIn start ↔ s.Finds start p := s.mem_filesIn_iff htree' hshort' hroot'
    have hinputs (p : Path) :
        p ∈ inputs ↔ s.Finds start p ∧ p.fileName?.getD [] ∉ job.settings.filesToIgnore := by
      rw [Search.mem_inputsIn_iff, hfinds]
    have hconverted : Conversions job input s.outputFor inputs start ending last :=
      hends.conversions hthere hmade
    obtain ⟨before, behind, hsplit, hbefore, hend⟩ := hconverted.exists_done
    have hascending := s.ascending_inputsIn job.settings start
    refine ⟨hinputs, hascending, hascending.nodup, ?_, before, behind, hsplit, hbefore, ?_, ?_, ?_⟩
    · intro p hp q hq
      exact s.eq_of_same htree' ((hinputs p).1 hp).1 ((hinputs q).1 hq).1
    · obtain ⟨hnone, rfl⟩ | ⟨p, rest, cause, hbehind, rfl, hfails⟩ := hend
      · exact .inl ⟨hnone, hending⟩
      · exact .inr ⟨p, rest, cause, hbehind, hending, hfails⟩
    · rintro earlier p later rfl
      refine hbefore.readText_of_found htree' ?_
      intro q hq
      exact (Search.mem_inputsIn_iff.1 (hsplit ▸ List.mem_append_left behind hq)).1
    · intro name around contents hname
      have hother : ¬ ∃ p ∈ before, (s.outputFor p).fileName? = some name := by
        rintro ⟨p, hp, hsame⟩
        exact hname p hp hsame
      exact ⟨hbefore.later.old hother, hbefore.later.kept hother⟩

def nestedFiles : FileSystem :=
  ⟨["work"], [(["work"], .directory), (["settings.json", "work"], .file (.text "\x7b\x7d")),
    (["Release", "work"], .directory),
    (["A.xml", "Release", "work"], .file (.text "<doc><assembly><name>A</name></assembly></doc>")),
    (["B.xml", "Release", "work"], .file (.text "<doc>")),
    (["Release", "Release", "work"], .directory),
    (["C.xml", "Release", "Release", "work"], .file (.text "<doc></doc>"))]⟩

def nestedStart : FileSystem :=
  nestedFiles.set ["out", "work"] .directory

def nestedWritten : FileSystem :=
  nestedStart.set ["A.md", "out", "work"] (.file (.text (twinPage "A")))

def nestedFailure : Failure :=
  .notDocumentation (.malformed (.unclosed ⟨"doc", [], ⟨1, 1⟩⟩))

theorem settled_nested : nestedFiles.withSettings twinArguments.settingsFile = nestedFiles := by
  decide

theorem job_nested : twinArguments.jobIn nestedFiles = twinJob :=
  congrArg (Job.mk _ · _) (inFile_of_braces rfl)

theorem start_nested : nestedFiles.createDirectories "out" = (.ok (), nestedStart) := by cbv

def nestedInputs : List Path :=
  ["./Release/A.xml", "./Release/B.xml", "./Release/Release/C.xml"]

theorem inputs_nested :
    (twinArguments.searchOf "." "out").inputsIn .empty nestedStart = nestedInputs := by
  decide

theorem pageIn_nested_first :
    twinJob.pageIn nestedStart input (.file "./Release/A.xml") = .ok (twinPage "A") :=
  pageIn_twin (.inl rfl) rfl rfl

theorem pageIn_nested_second (h : files = nestedStart ∨ files = nestedWritten) :
    twinJob.pageIn files input (.file "./Release/B.xml") = .error nestedFailure := by
  have hparse : Document.parse "<doc>" = .error (.malformed (.unclosed ⟨"doc", [], ⟨1, 1⟩⟩)) := by cbv
  have htext : Source.textIn files input (.file "./Release/B.xml") = .ok "<doc>" := by
    obtain rfl | rfl := h <;> rfl
  rw [Job.pageIn, htext]
  dsimp only
  rw [hparse]
  rfl

theorem conversions_nested {before behind : List Path} (hsplit : nestedInputs = before ++ behind)
    (hbefore : Conversions twinJob input (twinArguments.searchOf "." "out").outputFor before nestedStart
      (.ok ()) last)
    (hend : behind = [] ∧ ending = .finished ∨ ∃ p rest cause, behind = p :: rest ∧ ending = .failed cause ∧
      twinJob.Fails last input (.file p) ((twinArguments.searchOf "." "out").outputFor p) cause) :
    before = [("./Release/A.xml" : Text)] ∧ ending = .failed nestedFailure := by
  have hwrite : nestedStart.write "out/A.md" (.text (twinPage "A")) = .ok nestedWritten := rfl
  cases before with
  | nil =>
    cases hbefore
    obtain ⟨rfl, -⟩ | ⟨p, rest, cause, rfl, -, hcause | ⟨page, fault, hpage, hfault, -⟩⟩ := hend
    · cases hsplit
    · cases hsplit
      cases hcause.symm.trans pageIn_nested_first
    · cases hsplit
      cases hpage.symm.trans pageIn_nested_first
      cases hfault.symm.trans hwrite
  | cons p before =>
    obtain ⟨rfl, hrest⟩ := List.cons.inj hsplit
    cases hbefore.rest rfl pageIn_nested_first hwrite with
    | done files =>
      obtain ⟨rfl, -⟩ | ⟨p, rest, cause, rfl, hending, hcause | ⟨page, fault, hpage, -⟩⟩ := hend
      · cases hrest
      · cases hrest
        cases hcause.symm.trans (pageIn_nested_second (.inr rfl))
        exact ⟨rfl, hending⟩
      · cases hrest
        cases hpage.symm.trans (pageIn_nested_second (.inr rfl))
    | next hpage =>
      obtain ⟨rfl, -⟩ := List.cons.inj hrest
      cases hpage.symm.trans (pageIn_nested_second (.inr rfl))

theorem search_converts_found_files_nested :
    let arguments : List Text := ["-s", ".", "-o", "out"]
    let result := (run arguments : StateM Environment Ending) (.ofFiles nestedFiles (.text []))
    Arguments.parse arguments = .ok twinArguments ∧ twinArguments.search = some ("." : Text) ∧
      twinArguments.output = some ("out" : Text) ∧ nestedFiles.IsTree ∧ nestedFiles.HasShortNames ∧
      nestedFiles.isDirectory "." = true ∧
      nestedFiles.createDirectories "out" = (.ok (), nestedStart) ∧
      (∀ p, p ∈ nestedInputs ↔ (twinArguments.searchOf "." "out").Finds nestedStart p) ∧
      result.1 = .failed nestedFailure ∧ result.2.files.readText "out/A.md" = .ok (twinPage "A") ∧
      ∀ contents, result.2.files.get? ["C.md", "out", "work"] ≠ some (.file contents) := by
  intro arguments result
  have hparse : Arguments.parse arguments = .ok twinArguments := rfl
  have htree : nestedFiles.IsTree := isTree_of_entries (by decide)
  have hshort : nestedFiles.HasShortNames := .of_entries (by decide)
  have hroot : nestedFiles.isDirectory "." = true := by decide
  have hconverts := (search_converts_found_files hparse rfl rfl htree hshort hroot (.text [])).2
  rw [settled_nested, job_nested] at hconverts
  obtain ⟨hfound, -, -, -, before, behind, hsplit, hbefore, hend, hpages, hothers⟩ :=
    hconverts nestedStart start_nested
  change ∀ p, p ∈ Search.inputsIn _ .empty nestedStart ↔ _ ∧ _ ∉ [] at hfound
  change Search.inputsIn _ .empty nestedStart = _ at hsplit
  rw [inputs_nested] at hfound hsplit
  obtain ⟨rfl, hending⟩ := conversions_nested hsplit hbefore hend
  refine ⟨hparse, rfl, rfl, htree, hshort, hroot, start_nested, ?_, hending, ?_, ?_⟩
  · simpa using hfound
  · obtain ⟨page, hpage, hread⟩ := hpages [] "./Release/A.xml" [] rfl
    cases hpage.symm.trans pageIn_nested_first
    exact hread (fun q hq => absurd hq List.not_mem_nil) nofun
  · intro contents hthere
    have hother := (hothers "C.md" ["out", "work"] contents (by decide)).1 hthere
    cases hother

def missedFiles : FileSystem :=
  ⟨["work"], [(["work"], .directory), (["settings.json", "work"], .file (.text "\x7b\x7d")),
    (["Release", "work"], .directory),
    (["A.xml", "Release", "work"], .file (.text "<doc><assembly><name>A</name></assembly></doc>")),
    (["x", "Release", "work"], .directory)]⟩

def missedStart : FileSystem :=
  missedFiles.set ["out", "work"] .directory

def missedArguments (root : Path) : Arguments :=
  { twinArguments with search := some root }

def longRoot : Path :=
  (List.replicate 2046 ("./" : Text)).flatten ++ "."

theorem parse_missed {root : Path} (h : looksLikeOption root = false) :
    Arguments.parse ["-s", root, "-o", "out"] = .ok (missedArguments root) := by
  have hitems : items none ["-s", root, "-o", "out"] = [.value .search root, .value .output "out"] := by
    change (if looksLikeOption root then _ else .value .search root :: items none ["-o", "out"]) = _
    rw [h]
    rfl
  change Except.map _ ((items none _).foldlM Given.add ⟨[], []⟩) = _
  rw [hitems]
  rfl

theorem job_missed (root : Path) : (missedArguments root).jobIn missedFiles = twinJob :=
  congrArg (Job.mk _ · _) (inFile_of_braces rfl)

def missedRun (root : Path) : Ending × Environment :=
  (run ["-s", root, "-o", "out"] : StateM Environment Ending) (.ofFiles missedFiles (.text []))

theorem missedRun_of_no_inputs {root : Path}
    (hparse : Arguments.parse ["-s", root, "-o", "out"] = .ok (missedArguments root))
    (hroot : missedFiles.isDirectory root = true)
    (hinputs : (twinArguments.searchOf root "out").inputsIn .empty missedStart = []) :
    (missedRun root).1 = .finished ∧ (missedRun root).2.files.get? ["A.md", "out", "work"] = none := by
  have hsettled : missedFiles.withSettings twinArguments.settingsFile = missedFiles := by decide
  have hmade : missedFiles.createDirectories "out" = (.ok (), missedStart) := by cbv
  obtain ⟨ending, hends, hending⟩ := search_ends_of_run hparse rfl rfl missedFiles (.text [])
  change Search.Ends _ ((missedArguments root).jobIn (missedFiles.withSettings twinArguments.settingsFile)) _
    (missedFiles.withSettings twinArguments.settingsFile) ending (missedRun root).2.files at hends
  change (missedRun root).1 = _ at hending
  rw [hsettled, job_missed] at hends
  have hconverted := hends.conversions hroot hmade
  change Conversions _ _ _ (Search.inputsIn (twinArguments.searchOf root "out") .empty _) _ _ _ at hconverted
  rw [hinputs] at hconverted
  generalize (missedRun root).2.files = last at hconverted ⊢
  cases hconverted
  exact ⟨hending, rfl⟩

/-- A root that is a build directory goes unnoticed if its path has no name at the end, and any build
directory below if the path of the root is too long. -/
theorem search_misses_files :
    let nameless : Path := "Release/x/.."
    (Arguments.parse ["-s", nameless, "-o", "out"] = .ok (missedArguments nameless) ∧
      missedFiles.locate nameless = .ok ["Release", "work"] ∧
      (missedRun nameless).1 = .finished ∧
      (missedRun nameless).2.files.get? ["A.md", "out", "work"] = none) ∧
    (Arguments.parse ["-s", longRoot, "-o", "out"] = .ok (missedArguments longRoot) ∧
      missedFiles.locate longRoot = .ok ["work"] ∧
      (missedRun longRoot).1 = .finished ∧
      (missedRun longRoot).2.files.get? ["A.md", "out", "work"] = none) ∧
    twinArguments.directory = ("Release" : Text) ∧
    (missedFiles.get? ["A.xml", "Release", "work"]).isSome ∧
    (twinArguments.jobIn missedFiles).settings.filesToIgnore = [] := by
  intro nameless
  have hnameless := @parse_missed nameless rfl
  have hlong := @parse_missed longRoot (by decide +kernel)
  refine ⟨⟨hnameless, by decide +kernel, ?_⟩, ⟨hlong, by decide +kernel, ?_⟩, rfl, rfl, ?_⟩
  · exact missedRun_of_no_inputs hnameless (by decide +kernel) (by decide +kernel)
  · exact missedRun_of_no_inputs hlong (by decide +kernel) (by decide +kernel)
  · exact congrArg (·.settings.filesToIgnore) (job_missed [])

end Command

end Docmark
