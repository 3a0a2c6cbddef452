import Docmark.Proofs.Ascending
import Docmark.Proofs.Runs
import Docmark.Proofs.Trees

namespace Docmark

open Command

namespace Command

open FileSystem

variable {job : Job} {input : Contents} {files start last : FileSystem} {p : Path} {page : Text}

namespace Delivered

variable {path : Path} {secondary : Option Path} {ws : List Warning}

theorem later (h : Delivered files path page secondary last ws) :
    Later (fun name => path.fileName? = some name) files last := by
  cases h with
  | alone hopens => exact .of_opens hopens hopens.fileName?_eq _
  | uncopied hopens hadds => exact (Later.of_opens hopens hopens.fileName?_eq _).trans (.of_adds hadds _)
  | @copied around name directory made last contents beside hopens hadds _ _ hcopies hlast =>
    have hmade : Later (fun name => path.fileName? = some name) files made :=
      (Later.of_opens hopens hopens.fileName?_eq _).trans (.of_adds hadds _)
    rw [hlast]
    exact hmade.trans (.of_opens hcopies hopens.fileName?_eq _)

theorem exists_locate (h : Delivered files path page secondary last ws) :
    ∃ name around, path.fileName? = some name ∧ last.locate path = .ok (name :: around) := by
  have hwritten {around : Place} {name : Text} (hopens : files.Opens path around name)
      (hkeeps : Keeps (files.set (name :: around) (.file (.text page))) last) :
      ∃ name around, path.fileName? = some name ∧ last.locate path = .ok (name :: around) := by
    refine ⟨name, around, hopens.fileName?_eq, ?_⟩
    apply hopens.locate ((hopens.keeps_set _).trans hkeeps)
    apply hkeeps.present
    rw [get?_set_self files (List.cons_ne_nil name around)]
    rfl
  cases h with
  | alone hopens => exact hwritten hopens (.refl _)
  | uncopied hopens hadds => exact hwritten hopens hadds.toKeeps
  | copied hopens hadds _ _ hcopies hlast =>
    exact hwritten hopens (hadds.toKeeps.trans (hlast ▸ hcopies.keeps_set _))

theorem eq_of_write {made : FileSystem} (h : Delivered files path page none last ws)
    (hwrite : files.write path (.text page) = .ok made) : last = made := by
  obtain ⟨beside, other, -, hopens', rfl⟩ := write_eq_ok_iff.1 hwrite
  cases h with
  | alone hopens => rw [hopens.unique hopens']

end Delivered

/-- What conversions do to the files, one input after the other up to the first that fails. -/
inductive Conversions (job : Job) (input : Contents) (outputFor : Path → Path) :
    List Path → FileSystem → Except Failure Unit → FileSystem → Prop
  | done (files : FileSystem) : Conversions job input outputFor [] files (.ok ()) files
  | failed {p : Path} {ps : List Path} {files : FileSystem} {cause : Failure}
    (hcause : job.pageIn files input (.file p) = .error cause ∨
      ∃ page fault, job.pageIn files input (.file p) = .ok page ∧
        files.write (outputFor p) (.text page) = .error fault ∧ cause = .unwritable (outputFor p) fault) :
    Conversions job input outputFor (p :: ps) files (.error cause) files
  | next {p : Path} {ps : List Path} {files between last : FileSystem} {page : Text}
    {ws : List Warning} {result : Except Failure Unit}
    (hpage : job.pageIn files input (.file p) = .ok page)
    (hdelivered : Delivered files (outputFor p) page job.secondary between ws)
    (hrest : Conversions job input outputFor ps between result last) :
    Conversions job input outputFor (p :: ps) files result last

theorem conversions_run (job : Job) (outputFor : Path → Path) (ps : List Path) (env : Environment) :
    ∃ result last ws, Conversions job env.input outputFor ps env.files result last ∧
      (ps.forM fun p => (job.convert (.file p) (.file (outputFor p)) :
          ExceptT Failure (StateM Environment) Unit)).run env =
        (result, { env with files := last }.warned ws) := by
  -- Each conversion starts with the files and the warnings of the one before.
  induction ps generalizing env with
  | nil => exact ⟨.ok (), env.files, [], .done _, congrArg (Except.ok (), ·) env.warned_nil.symm⟩
  | cons p ps ih =>
    obtain ⟨ws, hconvert⟩ := job.convert_run (.file p) (.file (outputFor p)) env
    rw [List.forM_eq_forM, List.forM_cons, try_bind_run, hconvert]
    cases hpage : job.pageIn env.files env.input (.file p) with
    | error cause => exact ⟨.error cause, env.files, ws, .failed (.inl hpage), rfl⟩
    | ok page =>
      dsimp only
      obtain ⟨fault, hwrite, hdeliver⟩ | ⟨between, more, hdelivered, hdeliver⟩ :=
        deliver_run job.secondary page (outputFor p) (env.warned ws)
      · rw [hdeliver]
        exact ⟨_, env.files, ws, .failed (.inr ⟨page, fault, hpage, hwrite, rfl⟩), rfl⟩
      · obtain ⟨result, last, rest, hrest, hrun⟩ :=
          ih (({ env.warned ws with files := between } : Environment).warned more)
        rw [hdeliver]
        dsimp only
        rw [← List.forM_eq_forM, hrun]
        refine ⟨result, last, ws ++ more ++ rest, .next hpage hdelivered hrest, ?_⟩
        simp only [Environment.warned, List.append_assoc]

namespace Conversions

variable {outputFor : Path → Path} {ps before behind : List Path} {result : Except Failure Unit}

theorem later (h : Conversions job input outputFor ps files result last) :
    Later (fun name => ∃ p ∈ ps, (outputFor p).fileName? = some name) files last := by
  induction h with
  | done files | failed => exact .refl _ _
  | @next p ps files between last page ws result hpage hdelivered hrest ih =>
    apply (hdelivered.later.mono _).trans (ih.mono _)
    · exact fun name hname => ⟨p, List.mem_cons_self, hname⟩
    · exact fun name ⟨q, hq, hname⟩ => ⟨q, List.mem_cons_of_mem p hq, hname⟩

theorem rest {made : FileSystem} (h : Conversions job input outputFor (p :: ps) files result last)
    (halone : job.secondary = none) (hpage : job.pageIn files input (.file p) = .ok page)
    (hwrite : files.write (outputFor p) (.text page) = .ok made) :
    Conversions job input outputFor ps made result last := by
  cases h with
  | failed hcause =>
    obtain hcause | ⟨page', fault, hpage', hfault, -⟩ := hcause
    · cases hcause.symm.trans hpage
    · cases hpage'.symm.trans hpage
      cases hfault.symm.trans hwrite
  | next hpage' hdelivered hrest =>
    cases hpage'.symm.trans hpage
    rw [halone] at hdelivered
    rwa [← hdelivered.eq_of_write hwrite]

theorem exists_of_append (h : Conversions job input outputFor (before ++ p :: behind) files (.ok ()) last) :
    ∃ earlier between page ws, Conversions job input outputFor before files (.ok ()) earlier ∧
      job.pageIn earlier input (.file p) = .ok page ∧
      Delivered earlier (outputFor p) page job.secondary between ws ∧
      Conversions job input outputFor behind between (.ok ()) last := by
  induction before generalizing files with
  | nil =>
    cases h with
    | next hpage hdelivered hrest => exact ⟨files, _, _, _, .done files, hpage, hdelivered, hrest⟩
  | cons q before ih =>
    cases h with
    | next hpage hdelivered hrest =>
      obtain ⟨earlier, between, page, ws, hbefore, hp, hwritten, hbehind⟩ := ih hrest
      exact ⟨earlier, between, page, ws, .next hpage hdelivered hbefore, hp, hwritten, hbehind⟩

theorem readText_of_last (h : Conversions job input outputFor (before ++ p :: behind) files (.ok ()) last) :
    ∃ earlier page, Conversions job input outputFor before files (.ok ()) earlier ∧
      job.pageIn earlier input (.file p) = .ok page ∧
      ((∀ q ∈ behind, (outputFor q).fileName? ≠ (outputFor p).fileName?) →
        (∀ directory, job.secondary = some directory →
          ¬ last.Same (copyPath directory (outputFor p)) (outputFor p)) →
        last.readText (outputFor p) = .ok page) := by
  obtain ⟨earlier, between, page, ws, hbefore, hpage, hwritten, hbehind⟩ := h.exists_of_append
  refine ⟨earlier, page, hbefore, hpage, ?_⟩
  intro hlast hcopy
  have hkeeps := hbehind.later.toKeeps
  obtain ⟨name, around, hname, hlocate⟩ := hwritten.exists_locate
  refine hbehind.later.readText hlocate ?_ (hwritten.readText ?_)
  · rintro ⟨q, hq, heq⟩
    exact hlast q hq (heq.trans hname.symm)
  · intro directory hdirectory hsame
    exact hcopy directory hdirectory (hkeeps.same hsame)

end Conversions

namespace Search

def filesBelowIn (files : FileSystem) (path : Path) : List Path :=
  ((files.below path).filter isDocumentation).map (·.1)

def filesIn (s : Search) (files : FileSystem) : List Path :=
  Path.ascending (((files.below s.root).filter s.isBuildDirectory).map fun found =>
    filesBelowIn files found.1).flatten

def inputsIn (s : Search) (settings : Settings) (files : FileSystem) : List Path :=
  (s.filesIn files).filter (!isIgnored settings ·)

theorem below_run (path : Path) (env : Environment) :
    (Host.below path : StateM Environment _) env = (env.files.below path, env) := rfl

theorem filesBelow_run (path : Path) (env : Environment) :
    (filesBelow path : StateM Environment _) env = (filesBelowIn env.files path, env) := rfl

theorem mapM_filesBelow_run (found : List (Path × Bool)) (env : Environment) :
    (found.mapM fun d => (filesBelow d.1 : StateM Environment _)) env =
      (found.map fun d => filesBelowIn env.files d.1, env) := by
  induction found with
  | nil => rfl
  | cons d found ih =>
    rw [List.mapM_cons, bind_run, filesBelow_run, bind_run, ih]
    rfl

theorem files_run (s : Search) (env : Environment) :
    (s.files : StateM Environment _) env = (s.filesIn env.files, env) := by
  rw [files, bind_run, below_run]
  dsimp only
  rw [bind_run, mapM_filesBelow_run]
  rfl

variable {s : Search}

def foundIn (s : Search) (files : FileSystem) : List Path :=
  (((files.below s.root).filter s.isBuildDirectory).map fun found => filesBelowIn files found.1).flatten

theorem mem_foundIn_iff :
    p ∈ s.foundIn files ↔ ∃ d, (d, true) ∈ files.below s.root ∧ nameOf d = s.directory ∧
      (p, false) ∈ files.below d ∧ p.extension? = some ("xml" : Text) := by
  rw [foundIn, List.mem_flatten]
  constructor
  · rintro ⟨found, hfound, hp⟩
    obtain ⟨⟨d, isDirectory⟩, hd, rfl⟩ := List.mem_map.1 hfound
    obtain ⟨⟨p, isDirectory'⟩, hbelow, rfl⟩ := List.mem_map.1 hp
    obtain ⟨hd, hbuild⟩ := List.mem_filter.1 hd
    obtain ⟨hbelow, hdocumentation⟩ := List.mem_filter.1 hbelow
    rw [isBuildDirectory, Bool.and_eq_true, decide_eq_true_eq] at hbuild
    rw [isDocumentation, Bool.and_eq_true, Bool.not_eq_true', decide_eq_true_eq] at hdocumentation
    obtain rfl : isDirectory = true := hbuild.1
    obtain rfl : isDirectory' = false := hdocumentation.1
    exact ⟨d, hd, hbuild.2, hbelow, hdocumentation.2⟩
  · rintro ⟨d, hd, hname, hbelow, hxml⟩
    refine ⟨filesBelowIn files d, List.mem_map.2 ⟨(d, true), List.mem_filter.2 ⟨hd, ?_⟩, rfl⟩,
      List.mem_map.2 ⟨(p, false), List.mem_filter.2 ⟨hbelow, ?_⟩, rfl⟩⟩
    · rw [isBuildDirectory, hname, decide_eq_true rfl]
      rfl
    · rw [isDocumentation, hxml, decide_eq_true rfl]
      rfl

theorem exists_below_of_mem_filesIn (h : p ∈ s.filesIn files) :
    p.extension? = some ("xml" : Text) ∧
      ∃ d, (d, true) ∈ files.below s.root ∧ (p, false) ∈ files.below d := by
  have hfound : p ∈ s.foundIn files := Path.mem_of_mem_ascending h
  obtain ⟨d, hd, -, hbelow, hxml⟩ := mem_foundIn_iff.1 hfound
  exact ⟨hxml, d, hd, hbelow⟩

theorem exists_names_of_mem_filesIn (h : p ∈ s.filesIn files) :
    ∃ r around names, files.locate r = .ok around ∧ names ≠ [] ∧ p = names.foldl Path.join r ∧
      (files.get? (names.reverse ++ around)).isSome := by
  obtain ⟨-, d, hd, hp⟩ := exists_below_of_mem_filesIn h
  obtain ⟨around, hlocate, heq | ⟨names, hne, rfl, hthere⟩⟩ := exists_names_of_mem_below hp
  · obtain ⟨rfl, hplain⟩ := Prod.mk.inj heq
    obtain ⟨above, hroot, heq | ⟨names, hne, rfl, hthere⟩⟩ := exists_names_of_mem_below hd
    · obtain ⟨rfl, hdirectory⟩ := Prod.mk.inj heq
      cases hlocate.symm.trans hroot
      cases hplain.trans hdirectory.symm
    · exact ⟨s.root, above, names, hroot, hne, rfl, hthere⟩
  · exact ⟨d, around, names, hlocate, hne, rfl, hthere⟩

theorem exists_join_of_mem_filesIn (htree : files.IsTree) (h : p ∈ s.filesIn files)
    (hkeeps : Keeps files last) {place : Place} (hlocate : last.locate p = .ok place) :
    ∃ q around name, p = q.join name ∧ Path.IsName name ∧ files.locate q = .ok around := by
  -- The name of what is found is behind a path that leads somewhere, if it is ever found again.
  obtain ⟨r, around, names, hr, hne, rfl, hthere⟩ := exists_names_of_mem_filesIn h
  obtain ⟨-, hp⟩ := htree.locate_below hkeeps hr hthere hlocate
  obtain rfl | ⟨before, name, rfl⟩ := List.eq_nil_or_concat' names
  · exact absurd rfl hne
  · rw [List.reverse_append] at hthere
    have hname : Path.IsName name := htree.named _ _ hthere
    rw [List.foldl_append, List.foldl_cons, List.foldl_nil] at hp ⊢
    have hnonempty := Path.foldl_join_ne_nil (checkLength_eq_ok_iff.1 (locate_eq_ok_iff.1 hr).1).1 before
    obtain ⟨-, around, hq, -⟩ := (locate_join_iff hnonempty hname).1 hp
    exact ⟨_, around, name, rfl, hname, hq⟩

def outputName (s : Search) (stem : Text) : Text :=
  if s.readme then "README.md" else stem ++ "." ++ "md"

theorem getLast?_outputName (s : Search) (stem : Text) : (s.outputName stem).getLast? = some 'd' := by
  unfold outputName
  split
  · rfl
  · simp

theorem exists_outputFor (h : p.extension? = some ("xml" : Text)) (s : Search) :
    ∃ stem, p.fileName? = some (stem ++ "." ++ "xml" : Text) ∧ Path.IsName (s.outputName stem) ∧
      s.outputFor p = s.output.join (s.outputName stem) := by
  obtain ⟨front, stem, hsplit, hstem, hwith⟩ := Path.exists_stem h
  obtain ⟨hfront, hname⟩ := Path.split?_eq_some hsplit
  have hmd : Path.IsName (stem ++ "." ++ "md") := Path.isName_extended hname hstem (by simp) (by simp)
  refine ⟨stem, by rw [Path.fileName?, hsplit, Option.map_some], ?_, ?_⟩
  · unfold outputName
    split
    · exact ⟨by simp, by simp, by simp, by simp⟩
    · exact hmd
  · rw [outputFor, hwith, Path.fileName?_append hfront hmd, outputName, Option.getD_some]

variable {q : Path}

theorem outputFor_eq_iff (hp : p.extension? = some ("xml" : Text)) (hq : q.extension? = some ("xml" : Text)) :
    s.outputFor p = s.outputFor q ↔ s.readme = true ∨ p.fileName? = q.fileName? := by
  obtain ⟨stem, hstem, hname, hout⟩ := exists_outputFor hp s
  obtain ⟨stem', hstem', hname', hout'⟩ := exists_outputFor hq s
  rw [hout, hout', hstem, hstem', Path.join_eq hname, Path.join_eq hname', List.append_cancel_left_eq,
    outputName, outputName]
  cases s.readme <;> simp

theorem fileName?_outputFor_inj (hp : p.extension? = some ("xml" : Text))
    (hq : q.extension? = some ("xml" : Text))
    (h : (s.outputFor p).fileName? = (s.outputFor q).fileName?) : s.outputFor p = s.outputFor q := by
  obtain ⟨stem, -, hname, hout⟩ := exists_outputFor hp s
  obtain ⟨stem', -, hname', hout'⟩ := exists_outputFor hq s
  rw [hout, hout', Path.fileName?_join hname, Path.fileName?_join hname', Option.some.injEq] at h
  rw [hout, hout', h]

theorem pageIn_of_later (htree : files.IsTree) (h : p ∈ s.filesIn files) {written : Text → Prop}
    (hlater : Later written files last) (hwritten : ∀ name, written name → name.getLast? = some 'd')
    (hpage : job.pageIn last input (.file p) = .ok page) :
    job.pageIn files input (.file p) = .ok page := by
  obtain ⟨text, hread⟩ := Job.exists_readText_of_pageIn hpage
  obtain ⟨place, hlocate, -⟩ := readText_eq_ok_iff.1 hread
  obtain ⟨q, around, name, rfl, hname, hq⟩ := exists_join_of_mem_filesIn htree h hlater.toKeeps hlocate
  obtain ⟨front, stem, hsplit, hstem, hwith⟩ := Path.exists_stem (exists_below_of_mem_filesIn h).1
  rw [Path.join_eq hname, Path.split?_append (Path.isFront_frontOf q) hname] at hsplit
  obtain ⟨rfl, rfl⟩ := Prod.mk.inj (Option.some.inj hsplit)
  have hside : Path.IsName (stem ++ "." ++ "types.json") :=
    Path.isName_extended hname hstem (by simp) (by simp)
  have hsidecar : sidecar (q.join (stem ++ "." ++ "xml")) = q.join (stem ++ "." ++ "types.json") := by
    rw [sidecar, hwith, Path.join_eq hside]
  -- No output is named like a documentation file or like the metadata beside one.
  refine Job.pageIn_of_reads ?_ ?_ hpage
  · intro t ht
    apply (hlater.readText_join_iff htree hq hname ?_).1 ht
    intro hxml
    simpa using hwritten _ hxml
  · intro t
    rw [hsidecar]
    apply hlater.readText_join_iff htree hq hside
    intro hjson
    simpa using hwritten _ hjson

theorem isDirectory_run (path : Path) (env : Environment) :
    (Host.isDirectory path : StateM Environment Bool) env = (env.files.isDirectory path, env) := rfl

inductive Ends (s : Search) (job : Job) (input : Contents) (settled : FileSystem) :
    Except Failure Unit → FileSystem → Prop
  | absent (hroot : settled.isDirectory s.root = false) :
    Ends s job input settled (.error (.noSearchDirectory s.root)) settled
  | unmade {cause : FileError} {last : FileSystem}
    (hmade : settled.createDirectories s.output = (.error cause, last)) :
    Ends s job input settled (.error (.directoryNotCreated s.output cause)) last
  | converted {start last : FileSystem} {result : Except Failure Unit}
    (hmade : settled.createDirectories s.output = (.ok (), start))
    (hconverted : Conversions job input s.outputFor (s.inputsIn job.settings start) start result last) :
    Ends s job input settled result last

theorem ends_run (s : Search) (job : Job) (env : Environment) :
    ∃ result last ws, s.Ends job env.input env.files result last ∧
      (s.run job : ExceptT Failure (StateM Environment) Unit).run env =
        (result, { env with files := last }.warned ws) := by
  rw [Search.run, lift_bind_run, isDirectory_run]
  dsimp only
  cases hroot : env.files.isDirectory s.root with
  | false => exact ⟨_, _, [], .absent hroot, congrArg (Except.error _, ·) env.warned_nil.symm⟩
  | true =>
    rw [if_neg (by simp), lift_bind_run, createDirectories_run]
    obtain ⟨⟨made, start⟩, hmade⟩ : ∃ made, env.files.createDirectories s.output = made :=
      ⟨_, rfl⟩
    rw [hmade]
    let next : Environment := { env with files := start }
    cases made with
    | error cause => exact ⟨_, _, [], .unmade hmade, congrArg (Except.error _, ·) next.warned_nil.symm⟩
    | ok _ =>
      obtain ⟨result, last, ws, hconverted, hrun⟩ :=
        conversions_run job s.outputFor (s.inputsIn job.settings start) next
      dsimp only
      rw [lift_bind_run, files_run]
      exact ⟨result, last, ws, .converted hmade hconverted, hrun⟩

end Search

namespace Arguments

variable {a : Arguments} {root out : Path}

def searchOf (a : Arguments) (root out : Path) : Search :=
  ⟨root, a.directory, out, a.readme⟩

theorem execute_search_run (hsearch : a.search = some root) (hout : a.output = some out)
    (env : Environment) :
    let start := { env with files := env.files.withSettings a.settingsFile }
    ∃ ws, (a.execute : ExceptT Failure (StateM Environment) Unit).run env =
      ((a.searchOf root out).run (a.jobIn start.files) : ExceptT Failure (StateM Environment) Unit).run
        (start.warned ws) := by
  intro start
  obtain ⟨ws, hexecute⟩ := a.execute_task_run env
  have htask : a.task = .ok (.search (a.searchOf root out)) := by
    rw [task, hsearch, hout]
    rfl
  rw [hexecute, htask]
  exact ⟨ws, rfl⟩

end Arguments

theorem search_ends_of_run {arguments : List Text} {a : Arguments} {root out : Path}
    (hparse : Arguments.parse arguments = .ok a) (hsearch : a.search = some root)
    (hout : a.output = some out) (files : FileSystem) (input : Contents) :
    let result := (run arguments : StateM Environment Ending) (.ofFiles files input)
    let settled := files.withSettings a.settingsFile
    ∃ ending, (a.searchOf root out).Ends (a.jobIn settled) input settled ending result.2.files ∧
      result.1 = match ending with
        | .ok _ => .finished
        | .error cause => .failed cause := by
  intro result settled
  obtain ⟨ws, hexecute⟩ := a.execute_search_run hsearch hout (.ofFiles files input)
  obtain ⟨ending, last, more, hends, hsearched⟩ := (a.searchOf root out).ends_run (a.jobIn settled)
    (({ Environment.ofFiles files input with files := settled } : Environment).warned ws)
  have hrun : result = _ := run_eq hparse (.ofFiles files input)
  rw [hexecute.trans hsearched] at hrun
  rw [hrun]
  cases ending with
  | error cause => exact ⟨.error cause, hends, rfl⟩
  | ok _ => exact ⟨.ok (), hends, rfl⟩

theorem isTree_withSettings (h : files.IsTree) (path : Path) : (files.withSettings path).IsTree := by
  obtain hsame | ⟨around, name, hopens, -, hset⟩ := files.withSettings_cases path
  · rwa [hsame]
  · rw [hset]
    exact h.set_file hopens _

namespace Conversions

variable {s : Search} {before behind : List Path}

theorem readText_of_found (htree : start.IsTree) (hfound : ∀ q ∈ before ++ p :: behind, q ∈ s.filesIn start)
    (h : Conversions job input s.outputFor (before ++ p :: behind) start (.ok ()) last) :
    ∃ page, job.pageIn start input (.file p) = .ok page ∧
      ((∀ q ∈ behind, s.outputFor q ≠ s.outputFor p) →
        (∀ directory, job.secondary = some directory →
          ¬ last.Same (copyPath directory (s.outputFor p)) (s.outputFor p)) →
        last.readText (s.outputFor p) = .ok page) := by
  have hxml {q : Path} (hq : q ∈ before ++ p :: behind) : q.extension? = some ("xml" : Text) :=
    (Search.exists_below_of_mem_filesIn (hfound q hq)).1
  obtain ⟨earlier, page, hbefore, hpage, hread⟩ := h.readText_of_last
  refine ⟨page, Search.pageIn_of_later htree (hfound p (by simp)) hbefore.later ?_ hpage, ?_⟩
  · rintro name ⟨q, hq, hname⟩
    obtain ⟨stem, -, hisName, hout⟩ := Search.exists_outputFor (hxml (List.mem_append_left _ hq)) s
    rw [hout, Path.fileName?_join hisName] at hname
    obtain rfl := Option.some.inj hname
    exact s.getLast?_outputName stem
  · intro hlast
    apply hread
    intro q hq heq
    have hqxml := hxml (List.mem_append_right before (List.mem_cons_of_mem p hq))
    have hpxml := hxml (List.mem_append_right before List.mem_cons_self)
    exact hlast q hq (Search.fileName?_outputFor_inj hqxml hpxml heq)

theorem readText_of_search (htree : start.IsTree)
    (h : Conversions job input s.outputFor (s.inputsIn job.settings start) start (.ok ()) last)
    (hinputs : s.inputsIn job.settings start = before ++ p :: behind)
    (hlast : ∀ q ∈ behind, s.outputFor q ≠ s.outputFor p)
    (hcopy : ∀ directory, job.secondary = some directory →
      ¬ last.Same (copyPath directory (s.outputFor p)) (s.outputFor p)) :
    ∃ page, job.pageIn start input (.file p) = .ok page ∧ last.readText (s.outputFor p) = .ok page := by
  have hfound : ∀ q ∈ before ++ p :: behind, q ∈ s.filesIn start := fun q hq =>
    (List.mem_filter.1 (hinputs ▸ hq : q ∈ s.inputsIn job.settings start)).1
  rw [hinputs] at h
  obtain ⟨page, hpage, hread⟩ := h.readText_of_found htree hfound
  exact ⟨page, hpage, hread hlast hcopy⟩

end Conversions

/-- A search that finishes has converted all inputs. Those share an output if they share a name, or if
all outputs are `README.md`, and what is there at the end is the page of the last of them. -/
theorem search_keeps_last_pages {arguments : List Text} {a : Arguments} {root out : Path}
    (hparse : Arguments.parse arguments = .ok a) (hsearch : a.search = some root)
    (hout : a.output = some out) {files : FileSystem} (htree : files.IsTree) {input : Contents} :
    let result := (run arguments : StateM Environment Ending) (.ofFiles files input)
    let last := result.2.files
    let settled := files.withSettings a.settingsFile
    let start := (settled.createDirectories out).2
    let job := a.jobIn settled
    let s := a.searchOf root out
    let inputs := s.inputsIn job.settings start
    result.1 = .finished →
    Conversions job input s.outputFor inputs start (.ok ()) last ∧
    (∀ p ∈ inputs, ∀ q ∈ inputs,
      s.outputFor p = s.outputFor q ↔ a.readme = true ∨ p.fileName? = q.fileName?) ∧
    ∀ before p behind, inputs = before ++ p :: behind →
      (∀ q ∈ behind, s.outputFor q ≠ s.outputFor p) →
      (∀ directory, a.secondary = some directory →
        ¬ last.Same (copyPath directory (s.outputFor p)) (s.outputFor p)) →
      ∃ page, job.pageIn start input (.file p) = .ok page ∧ last.readText (s.outputFor p) = .ok page := by
  intro result last settled start job s inputs hfinished
  have hstart : start.IsTree := (isTree_withSettings htree a.settingsFile).createDirectories out
  have hconverted : Conversions job input s.outputFor inputs start (.ok ()) last := by
    obtain ⟨ending, hends, hending⟩ := search_ends_of_run hparse hsearch hout files input
    cases ending with
    | error cause => cases hending.symm.trans hfinished
    | ok _ =>
      cases hends with
      | converted hmade hconverted =>
        obtain rfl : _ = start := (congrArg Prod.snd hmade).symm
        exact hconverted
  refine ⟨hconverted, ?_, ?_⟩
  · intro p hp q hq
    have hxml {p : Path} (hp : p ∈ inputs) : p.extension? = some ("xml" : Text) :=
      (Search.exists_below_of_mem_filesIn (List.mem_filter.1 hp).1).1
    exact Search.outputFor_eq_iff (hxml hp) (hxml hq)
  · intro before p behind hinputs hlast hcopy
    exact hconverted.readText_of_search hstart hinputs hlast hcopy

def twinFiles : FileSystem :=
  ⟨["work"], [(["work"], .directory), (["settings.json", "work"], .file (.text "\x7b\x7d")),
    (["a", "work"], .directory), (["Release", "a", "work"], .directory),
    (["X.xml", "Release", "a", "work"], .file (.text "<doc><assembly><name>A</name></assembly></doc>")),
    (["b", "work"], .directory), (["Release", "b", "work"], .directory),
    (["X.xml", "Release", "b", "work"], .file (.text "<doc><assembly><name>B</name></assembly></doc>"))]⟩

def twinArguments : Arguments :=
  ⟨⟨.error, .perAssembly⟩, "settings.json", none, some "out", none, false, false, some ".", "Release",
    false⟩

def twinJob : Job :=
  ⟨⟨.error, .perAssembly⟩, .empty, none⟩

def twinPage (name : Text) : Text :=
  "# " ++ name ++ "\n\n" ++ footer

def twinDocument (name : Text) : Document :=
  ⟨⟨⟨"doc", [], ⟨1, 1⟩⟩,
    [.element ⟨"assembly", [], ⟨1, 6⟩⟩ [.element ⟨"name", [], ⟨1, 16⟩⟩ [.text name]]]⟩⟩

def twinText (name : Text) : Text :=
  "<doc><assembly><name>" ++ name ++ "</name></assembly></doc>"

theorem parse_twin {name : Text} (h : name = "A" ∨ name = "B") :
    Document.parse (twinText name) = .ok (twinDocument name) := by
  obtain rfl | rfl := h
  · change Document.parse "<doc><assembly><name>A</name></assembly></doc>" = _
    cbv
  · change Document.parse "<doc><assembly><name>B</name></assembly></doc>" = _
    cbv

theorem pageIn_twin {path : Path} {name : Text} (hname : name = "A" ∨ name = "B")
    (hread : files.readText path = .ok (twinText name))
    (hside : Source.resolverIn files (.file path) = .unknown) :
    twinJob.pageIn files input (.file path) = .ok (twinPage name) := by
  have htext : Source.textIn files input (.file path) = .ok (twinText name) := by
    rw [Source.textIn, hread]
    rfl
  have hresult : (twinJob.page .unknown (twinDocument name)).result = .ok (Text.squeezeBreaks
      (fill "# {0}\n{1}\n\n{2}\n\n" [name, fill "{1}\n" [[], fill "" [] ++ []], []])) := by
    obtain rfl | rfl := hname <;> rfl
  have hfill : Text.squeezeBreaks
      (fill "# {0}\n{1}\n\n{2}\n\n" [name, fill "{1}\n" [[], fill "" [] ++ []], []]) =
        "# " ++ name ++ "\n\n" := by
    obtain rfl | rfl := hname <;> cbv
  rw [Job.pageIn_of_parse htext (parse_twin hname), hside, hresult, hfill]
  rfl

def twinStart : FileSystem :=
  twinFiles.set ["out", "work"] .directory

def twinWritten (name : Text) : FileSystem :=
  twinStart.set ["X.md", "out", "work"] (.file (.text (twinPage name)))

theorem settled_twin : twinFiles.withSettings twinArguments.settingsFile = twinFiles := by decide

theorem job_twin : twinArguments.jobIn twinFiles = twinJob :=
  congrArg (Job.mk _ · _) (inFile_of_braces rfl)

theorem start_twin : twinFiles.createDirectories "out" = (.ok (), twinStart) := by cbv

theorem inputs_twin : (twinArguments.searchOf "." "out").inputsIn .empty twinStart =
    ["./a/Release/X.xml", "./b/Release/X.xml"] := by
  decide

theorem pageIn_twin_first : twinJob.pageIn twinStart input (.file "./a/Release/X.xml") =
    .ok (twinPage "A") :=
  pageIn_twin (.inl rfl) rfl rfl

theorem pageIn_twin_second (h : files = twinStart ∨ files = twinWritten "A") :
    twinJob.pageIn files input (.file "./b/Release/X.xml") = .ok (twinPage "B") := by
  obtain rfl | rfl := h <;> exact pageIn_twin (.inr rfl) rfl rfl

theorem conversions_twin {result : Except Failure Unit}
    (h : Conversions twinJob input (twinArguments.searchOf "." "out").outputFor
      ["./a/Release/X.xml", "./b/Release/X.xml"] twinStart result last) :
    result = .ok () ∧ last = twinWritten "B" := by
  have hwrite : twinStart.write "out/X.md" (.text (twinPage "A")) = .ok (twinWritten "A") := rfl
  have hwrite' : (twinWritten "A").write "out/X.md" (.text (twinPage "B")) = .ok (twinWritten "B") := rfl
  cases (h.rest rfl pageIn_twin_first hwrite).rest rfl (pageIn_twin_second (.inr rfl)) hwrite' with
  | done files => exact ⟨rfl, rfl⟩

theorem run_twin :
    let arguments : List Text := ["-s", ".", "-o", "out"]
    let result := (run arguments : StateM Environment Ending) (.ofFiles twinFiles (.text []))
    result.1 = .finished ∧ result.2.files = twinWritten "B" := by
  intro arguments result
  have hparse : Arguments.parse arguments = .ok twinArguments := rfl
  have hroot : twinFiles.isDirectory "." = true := by decide
  obtain ⟨ending, hends, hending⟩ := search_ends_of_run hparse rfl rfl twinFiles (.text [])
  rw [settled_twin, job_twin] at hends
  change Search.Ends _ _ _ _ ending result.2.files at hends
  change result.1 = _ at hending
  generalize result.2.files = last at hends ⊢
  cases hends with
  | absent habsent => cases hroot.symm.trans habsent
  | unmade hmade => cases hmade.symm.trans start_twin
  | converted hmade hconverted =>
    cases hmade.symm.trans start_twin
    change Conversions _ _ _ (Search.inputsIn _ .empty twinStart) _ _ _ at hconverted
    rw [inputs_twin] at hconverted
    obtain ⟨rfl, rfl⟩ := conversions_twin hconverted
    exact ⟨hending, rfl⟩

theorem search_keeps_last_pages_twins :
    let arguments : List Text := ["-s", ".", "-o", "out"]
    let result := (run arguments : StateM Environment Ending) (.ofFiles twinFiles (.text []))
    Arguments.parse arguments = .ok twinArguments ∧ twinArguments.search = some ("." : Text) ∧
      twinArguments.output = some ("out" : Text) ∧ twinFiles.IsTree ∧ result.1 = .finished ∧
      result.2.files.readText "out/X.md" = .ok (twinPage "B") := by
  intro arguments result
  have hparse : Arguments.parse arguments = .ok twinArguments := rfl
  have htree : twinFiles.IsTree := isTree_of_entries (by decide)
  have hfinished : result.1 = .finished := run_twin.1
  refine ⟨hparse, rfl, rfl, htree, hfinished, ?_⟩
  obtain ⟨-, -, hkept⟩ := search_keeps_last_pages hparse rfl rfl htree hfinished
  rw [settled_twin, job_twin, start_twin] at hkept
  obtain ⟨page, hpage, hread⟩ := hkept ["./a/Release/X.xml"] "./b/Release/X.xml" [] inputs_twin
    (fun q hq => absurd hq List.not_mem_nil) nofun
  cases hpage.symm.trans (pageIn_twin_second (.inl rfl))
  exact hread

theorem search_overwrites_page :
    let arguments : List Text := ["-s", ".", "-o", "out"]
    let result := (run arguments : StateM Environment Ending) (.ofFiles twinFiles (.text []))
    let settled := twinFiles.withSettings twinArguments.settingsFile
    let start := (settled.createDirectories "out").2
    let job := twinArguments.jobIn settled
    let s := twinArguments.searchOf "." "out"
    Arguments.parse arguments = .ok twinArguments ∧ result.1 = .finished ∧
      s.inputsIn job.settings start = ["./a/Release/X.xml", "./b/Release/X.xml"] ∧
      s.outputFor "./a/Release/X.xml" = s.outputFor "./b/Release/X.xml" ∧
      job.pageIn start (.text []) (.file "./a/Release/X.xml") = .ok (twinPage "A") ∧
      ∀ place, result.2.files.get? place ≠ some (.file (.text (twinPage "A"))) := by
  intro arguments result settled start job s
  have hsettled : settled = twinFiles := settled_twin
  have hjob : job = twinJob := by rw [← job_twin, ← hsettled]
  have hstart : start = twinStart := by
    have hmade := start_twin
    rw [← hsettled] at hmade
    exact congrArg Prod.snd hmade
  have hsame : (twinArguments.searchOf "." "out").outputFor "./a/Release/X.xml" =
      (twinArguments.searchOf "." "out").outputFor "./b/Release/X.xml" := by
    decide
  rw [hjob, hstart]
  refine ⟨rfl, run_twin.1, inputs_twin, hsame, pageIn_twin_first, ?_⟩
  intro place hplace
  rw [run_twin.2] at hplace
  have hnone : ∀ found ∈ (twinWritten "B").entries, found.2 ≠ .file (.text (twinPage "A")) := by
    decide
  exact hnone _ (mem_entries_of_get? hplace) rfl

end Command
end Docmark
