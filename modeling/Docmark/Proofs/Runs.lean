import Mathlib
import Docmark.Command.Environment
import Docmark.Command.Execution
import Docmark.Proofs.Files

namespace Docmark

open Command

namespace Settings

def inFile (files : FileSystem) (path : Path) : Settings :=
  match files.readText path with
  | .ok source => (ofJson source).toOption.getD empty
  | .error _ => empty

end Settings

namespace FileSystem

def withSettings (files : FileSystem) (path : Path) : FileSystem :=
  if (files.find path).isSome then files
  else (files.write path (.text Settings.empty.toJson)).toOption.getD files

variable {files : FileSystem} {path : Path}

theorem withSettings_cases (files : FileSystem) (path : Path) :
    files.withSettings path = files ∨
      ∃ around name, files.Opens path around name ∧ files.get? (name :: around) = none ∧
        files.withSettings path = files.set (name :: around) (.file (.text Settings.empty.toJson)) := by
  unfold withSettings
  split
  · exact .inl rfl
  · next hnone =>
    cases hwrite : files.write path (.text Settings.empty.toJson) with
    | error cause => exact .inl rfl
    | ok made =>
      obtain ⟨around, name, -, hopens, rfl⟩ := write_eq_ok_iff.1 hwrite
      rw [hopens.find_eq] at hnone
      exact .inr ⟨around, name, hopens, by simpa using hnone, rfl⟩

theorem readText_ne_ok_of_find (h : files.find path = none) (t : Text) :
    files.readText path ≠ .ok t := by
  intro hread
  obtain ⟨place, hlocate, hget⟩ := readText_eq_ok_iff.1 hread
  rw [find, hlocate] at h
  exact Option.some_ne_none _ (hget.symm.trans h)

theorem inFile_of_find_eq_none (h : files.find path = none) : Settings.inFile files path = .empty := by
  unfold Settings.inFile
  split
  · next source hread => exact absurd hread (readText_ne_ok_of_find h source)
  · rfl

theorem inFile_of_braces (h : files.readText path = .ok "\x7b\x7d") : Settings.inFile files path = .empty := by
  rw [Settings.inFile, h]
  cbv

end FileSystem

namespace Command

namespace Environment

variable (env : Environment)

def warned (ws : List Warning) : Environment :=
  { env with warnings := env.warnings ++ ws }

@[simp] theorem files_warned (ws : List Warning) : (env.warned ws).files = env.files := rfl

@[simp] theorem input_warned (ws : List Warning) : (env.warned ws).input = env.input := rfl

@[simp] theorem output_warned (ws : List Warning) : (env.warned ws).output = env.output := rfl

@[simp] theorem outputFault_warned (ws : List Warning) :
    (env.warned ws).outputFault = env.outputFault := rfl

theorem warned_nil : env.warned [] = env := by
  rw [warned, List.append_nil]

theorem warned_warned (ws more : List Warning) : (env.warned ws).warned more = env.warned (ws ++ more) := by
  simp only [warned, List.append_assoc]

end Environment

section

variable {α β : Type} (env : Environment)

theorem bind_run (x : StateM Environment α) (f : α → StateM Environment β) :
    (x >>= f) env = f (x env).1 (x env).2 := rfl

theorem pure_run (a : α) : (pure a : StateM Environment α) env = (a, env) := rfl

theorem lift_bind_run (x : StateM Environment α) (f : α → ExceptT Failure (StateM Environment) β) :
    (liftM x >>= f : ExceptT Failure (StateM Environment) β).run env = (f (x env).1).run (x env).2 :=
  rfl

theorem try_bind_run (x : ExceptT Failure (StateM Environment) α)
    (f : α → ExceptT Failure (StateM Environment) β) :
    (x >>= f).run env =
      match x.run env with
      | (.ok a, next) => (f a).run next
      | (.error cause, next) => (.error cause, next) := by
  rw [ExceptT.run_bind, bind_run]
  obtain ⟨result, next⟩ := x.run env
  cases result <;> rfl

theorem mk_pure_run (result : Except Failure α) :
    (ExceptT.mk (pure result) : ExceptT Failure (StateM Environment) α).run env = (result, env) := rfl

theorem isThere_run (p : Path) : (Host.isThere p : StateM Environment Bool) env =
    ((env.files.find p).isSome, env) := rfl

theorem readText_run (p : Path) : (Host.readText p : StateM Environment _) env =
    (env.files.readText p, env) := rfl

theorem stdin_run : (Host.stdin : StateM Environment _) env = (env.input.read, env) := rfl

theorem writeText_run (p : Path) (t : Text) : (Host.writeText p t : StateM Environment _) env =
    match env.files.write p (.text t) with
    | .ok files => (.ok (), { env with files := files })
    | .error cause => (.error cause, env) := rfl

theorem print_run (t : Text) : (Host.print t : StateM Environment _) env =
    match env.outputFault with
    | none => (.ok (), { env with output := env.output ++ t })
    | some cause => (.error cause, env) := rfl

theorem warn_run (w : Warning) : (Host.warn w : StateM Environment Unit) env = ((), env.warned [w]) := rfl

end

theorem loadOrWarn_run (path : Path) (env : Environment) :
    ∃ ws, (Settings.loadOrWarn path : StateM Environment Settings) env =
      (Settings.inFile env.files path, env.warned ws) := by
  rw [Settings.loadOrWarn, Settings.load, Settings.inFile, bind_run, bind_run, readText_run]
  cases env.files.readText path with
  | error cause => exact ⟨[.settingsNotLoaded path (.file cause)], rfl⟩
  | ok source =>
    dsimp only
    rw [pure_run]
    cases Settings.ofJson source with
    | error fault => exact ⟨[.settingsNotLoaded path (.json fault)], rfl⟩
    | ok settings => exact ⟨[], congrArg (settings, ·) (env.warned_nil).symm⟩

theorem loadOrCreate_run (path : Path) (env : Environment) :
    let files := env.files.withSettings path
    ∃ ws, (Settings.loadOrCreate path : StateM Environment Settings) env =
      (Settings.inFile files path, { env with files := files }.warned ws) := by
  intro files
  rw [Settings.loadOrCreate, bind_run, isThere_run]
  dsimp only
  by_cases hthere : (env.files.find path).isSome = true
  · have hfiles : files = env.files := if_pos hthere
    rw [if_pos hthere, hfiles]
    exact loadOrWarn_run path env
  · rw [if_neg hthere, bind_run, Settings.save, writeText_run]
    cases hwrite : env.files.write path (.text Settings.empty.toJson) with
    | ok made =>
      have hfiles : files = made := by
        simp only [files, FileSystem.withSettings, if_neg hthere, hwrite]
        rfl
      rw [hfiles]
      exact loadOrWarn_run path { env with files := made }
    | error cause =>
      have hfiles : files = env.files := by
        simp only [files, FileSystem.withSettings, if_neg hthere, hwrite]
        rfl
      have hnone : env.files.find path = none := by simpa using hthere
      rw [hfiles, FileSystem.inFile_of_find_eq_none hnone]
      exact ⟨[.settingsNotCreated path cause], rfl⟩

namespace Source

def textIn (files : FileSystem) (input : Contents) : Source → Except Failure Text
  | file path => (files.readText path).mapError (.unreadable path)
  | stdin => input.read.mapError .unreadableStdin

def resolverIn (files : FileSystem) : Source → Resolver
  | stdin => .unknown
  | file path =>
    match files.readText (sidecar path) with
    | .error _ => .unknown
    | .ok source =>
      match MetadataTable.ofJson source with
      | .error _ => .unknown
      | .ok table => .ofTable table

theorem read_run (source : Source) (env : Environment) :
    (source.read : ExceptT Failure (StateM Environment) Text).run env =
      (source.textIn env.files env.input, env) := by
  cases source with
  | file path =>
    rw [Source.read, textIn, lift_bind_run, readText_run]
    cases env.files.readText path <;> rfl
  | stdin =>
    rw [Source.read, textIn, lift_bind_run, stdin_run]
    cases env.input.read <;> rfl

theorem loadTable_run (path : Path) (env : Environment) :
    (loadTable path : StateM Environment _) env =
      (match env.files.readText path with
        | .error cause => .error (.file cause)
        | .ok source => (MetadataTable.ofJson source).mapError .json, env) := by
  rw [loadTable, bind_run, readText_run]
  cases env.files.readText path <;> rfl

theorem resolver_run (source : Source) (env : Environment) :
    ∃ ws, (source.resolver : StateM Environment Resolver) env =
      (source.resolverIn env.files, env.warned ws) := by
  cases source with
  | stdin => exact ⟨[], congrArg (Resolver.unknown, ·) env.warned_nil.symm⟩
  | file path =>
    rw [resolver, resolverIn, bind_run, isThere_run]
    dsimp only
    by_cases hthere : (env.files.find (sidecar path)).isSome = true
    · rw [if_pos hthere, bind_run, loadTable_run]
      cases hread : env.files.readText (sidecar path) with
      | error cause => exact ⟨[.metadataNotLoaded (sidecar path) (.file cause)], rfl⟩
      | ok source =>
        dsimp only
        cases MetadataTable.ofJson source with
        | error fault => exact ⟨[.metadataNotLoaded (sidecar path) (.json fault)], rfl⟩
        | ok table => exact ⟨[], congrArg (Resolver.ofTable table, ·) env.warned_nil.symm⟩
    · have hnone : env.files.find (sidecar path) = none := by simpa using hthere
      rw [if_neg hthere]
      cases hread : env.files.readText (sidecar path) with
      | error cause => exact ⟨[], congrArg (Resolver.unknown, ·) env.warned_nil.symm⟩
      | ok source => exact absurd hread (FileSystem.readText_ne_ok_of_find hnone source)

end Source

namespace Job

def pageIn (job : Job) (files : FileSystem) (input : Contents) (source : Source) :
    Except Failure Text :=
  match source.textIn files input with
  | .error cause => .error cause
  | .ok text =>
    match Document.parse text with
    | .error cause => .error (.notDocumentation cause)
    | .ok d =>
      match (job.page (source.resolverIn files) d).result with
      | .error cause => .error (.unknownTag cause)
      | .ok page => .ok (page ++ footer)

theorem pageIn_of_parse {job : Job} {files : FileSystem} {input : Contents} {source : Source}
    {text : Text} {d : Document} (htext : source.textIn files input = .ok text)
    (hparse : Document.parse text = .ok d) :
    job.pageIn files input source =
      match (job.page (source.resolverIn files) d).result with
      | .error cause => .error (.unknownTag cause)
      | .ok page => .ok (page ++ footer) := by
  rw [pageIn, htext]
  dsimp only
  rw [hparse]

theorem exists_readText_of_pageIn {job : Job} {files : FileSystem} {input : Contents} {path : Path}
    {page : Text} (h : job.pageIn files input (.file path) = .ok page) :
    ∃ text, files.readText path = .ok text := by
  rw [pageIn, Source.textIn] at h
  cases hread : files.readText path with
  | error cause => simp [hread, Except.mapError] at h
  | ok text => exact ⟨text, rfl⟩

theorem pageIn_of_reads {job : Job} {files other : FileSystem} {input : Contents} {path : Path}
    {page : Text} (hread : ∀ t, other.readText path = .ok t → files.readText path = .ok t)
    (hside : ∀ t, other.readText (sidecar path) = .ok t ↔ files.readText (sidecar path) = .ok t)
    (h : job.pageIn other input (.file path) = .ok page) :
    job.pageIn files input (.file path) = .ok page := by
  obtain ⟨text, htext⟩ := exists_readText_of_pageIn h
  have hresolver : Source.resolverIn other (.file path) = Source.resolverIn files (.file path) := by
    rw [Source.resolverIn, Source.resolverIn]
    cases hthere : other.readText (sidecar path) with
    | ok source => rw [(hside source).1 hthere]
    | error cause =>
      cases hfiles : files.readText (sidecar path) with
      | error cause' => rfl
      | ok source => cases hthere.symm.trans ((hside source).2 hfiles)
  rw [pageIn, Source.textIn, htext, hresolver] at h
  rw [pageIn, Source.textIn, hread text htext]
  exact h

theorem forM_warn_run (us : List UnknownTag) (env : Environment) :
    (us.forM fun u => (Host.warn (.unknownTag u) : StateM Environment Unit) :
      ExceptT Failure (StateM Environment) Unit).run env =
      (.ok (), env.warned (us.map .unknownTag)) := by
  induction us generalizing env with
  | nil => exact congrArg (Except.ok (), ·) env.warned_nil.symm
  | cons u us ih =>
    rw [List.forM_eq_forM, List.forM_cons, lift_bind_run, warn_run, ← List.forM_eq_forM, ih,
      env.warned_warned]
    rfl

theorem convert_run (job : Job) (source : Source) (sink : Sink) (env : Environment) :
    ∃ ws, (job.convert source sink : ExceptT Failure (StateM Environment) Unit).run env =
      match job.pageIn env.files env.input source with
      | .error cause => (.error cause, env.warned ws)
      | .ok page =>
        (sink.write job.secondary page : ExceptT Failure (StateM Environment) Unit).run (env.warned ws) := by
  rw [convert, try_bind_run, Source.read_run, pageIn]
  cases source.textIn env.files env.input with
  | error cause => exact ⟨[], congrArg (Except.error cause, ·) env.warned_nil.symm⟩
  | ok text =>
    dsimp only
    cases Document.parse text with
    | error cause => exact ⟨[], congrArg (Except.error _, ·) env.warned_nil.symm⟩
    | ok d =>
      obtain ⟨ws, hresolver⟩ := source.resolver_run env
      dsimp only
      rw [lift_bind_run, hresolver]
      let outcome := job.page (source.resolverIn env.files) d
      refine ⟨ws ++ outcome.warnings.map .unknownTag, ?_⟩
      rw [try_bind_run, forM_warn_run, env.warned_warned]
      dsimp only
      cases (job.page (source.resolverIn env.files) d).result with
      | error cause => rfl
      | ok page => rfl

end Job

def copyPath (directory output : Path) : Path :=
  (directory.join "docs").join (output.fileName?.getD [])

/-- The directories down to the copy of an output file are there or can be made, and then so can the copy. -/
def CopyMade (files : FileSystem) (directory output : Path) : Prop :=
  ∃ made last, files.createDirectories (directory.join "docs") = (.ok (), made) ∧
    made.copy output (copyPath directory output) = .ok last

def CopyFault (files : FileSystem) (directory output : Path) (cause : FileError) (made : FileSystem) :
    Prop :=
  files.createDirectories (directory.join "docs") = (.error cause, made) ∨
    files.createDirectories (directory.join "docs") = (.ok (), made) ∧
      made.copy output (copyPath directory output) = .error cause

theorem CopyFault.not_copyMade {files made : FileSystem} {directory output : Path} {cause : FileError}
    (h : CopyFault files directory output cause made) : ¬ CopyMade files directory output := by
  rintro ⟨made', last, hmade, hlast⟩
  obtain hfault | ⟨hfiles, hfault⟩ := h
  · cases hfault.symm.trans hmade
  · cases hfiles.symm.trans hmade
    cases hfault.symm.trans hlast

/-- What is done to the files when a page is written to one of them: the file is made or replaced, and
where there is to be a copy, directories are made on the way to it, and the copy. A copy that cannot be
made is reported instead, and one that goes to the file itself may hold anything. -/
inductive Delivered (files : FileSystem) (path : Path) (page : Text) :
    Option Path → FileSystem → List Warning → Prop
  | alone {around : Place} {name : Text} (hopens : files.Opens path around name) :
    Delivered files path page none (files.set (name :: around) (.file (.text page))) []
  | uncopied {around : Place} {name : Text} {directory : Path} {made : FileSystem} {cause : FileError}
    (hopens : files.Opens path around name)
    (hadds : (files.set (name :: around) (.file (.text page))).Adds made (directory.join "docs"))
    (hcopy : ¬ CopyMade (files.set (name :: around) (.file (.text page))) directory path)
    (hfault : CopyFault (files.set (name :: around) (.file (.text page))) directory path cause made) :
    Delivered files path page (some directory) made [.notCopied (copyPath directory path) cause]
  | copied {around : Place} {name : Text} {directory : Path} {made last : FileSystem}
    {contents : Contents} {beside : Place} (hopens : files.Opens path around name)
    (hadds : (files.set (name :: around) (.file (.text page))).Adds made (directory.join "docs"))
    (hmade : (files.set (name :: around) (.file (.text page))).createDirectories (directory.join "docs") =
      (.ok (), made))
    (hcopied : made.copy path (copyPath directory path) = .ok last)
    (hcopies : made.Opens (copyPath directory path) beside name)
    (hlast : last = made.set (name :: beside) (.file contents))
    (hcontents : last.Same (copyPath directory path) path ∨ contents = .text page) :
    Delivered files path page (some directory) last []

theorem createDirectories_run (p : Path) (env : Environment) :
    (Host.createDirectories p : StateM Environment _) env =
      ((env.files.createDirectories p).1, { env with files := (env.files.createDirectories p).2 }) := rfl

theorem copy_run (source target : Path) (env : Environment) :
    (Host.copy source target : StateM Environment _) env =
      match env.files.copy source target with
      | .ok files => (.ok (), { env with files := files })
      | .error cause => (.error cause, env) := rfl

theorem copyTo_run {output : Path} {name : Text} (hname : output.fileName? = some name)
    (directory : Path) (env : Environment) :
    let made := (env.files.createDirectories (directory.join "docs")).2
    (∃ cause, CopyFault env.files directory output cause made ∧
      ((copyTo directory output : StateM Environment Unit) env).2 =
        { env with files := made }.warned [.notCopied (copyPath directory output) cause]) ∨
    ∃ last, env.files.createDirectories (directory.join "docs") = (.ok (), made) ∧
      made.copy output (copyPath directory output) = .ok last ∧
      ((copyTo directory output : StateM Environment Unit) env).2 = { env with files := last } := by
  intro made
  have htarget : copyPath directory output = (directory.join "docs").join name := by
    rw [copyPath, hname, Option.getD_some]
  obtain ⟨result, hmade⟩ : ∃ result, env.files.createDirectories (directory.join "docs") = (result, made) :=
    ⟨_, rfl⟩
  rw [copyTo, hname, htarget, hmade]
  dsimp only
  rw [bind_run, createDirectories_run, hmade]
  dsimp only
  cases result with
  | error cause => exact .inl ⟨cause, .inl hmade, rfl⟩
  | ok _ =>
    have hrun := copy_run output ((directory.join "docs").join name) { env with files := made }
    dsimp only at hrun ⊢
    rw [bind_run, hrun]
    cases hcopy : made.copy output ((directory.join "docs").join name) with
    | error cause => exact .inl ⟨cause, .inr ⟨hmade, htarget ▸ hcopy⟩, rfl⟩
    | ok last => exact .inr ⟨last, rfl, rfl, rfl⟩

theorem write_stdout_run (secondary : Option Path) (page : Text) (env : Environment) :
    (Sink.write secondary page .stdout : ExceptT Failure (StateM Environment) Unit).run env =
      match env.outputFault with
      | some cause => (.error (.unprintable cause), env)
      | none => (.ok (), { env with output := env.output ++ page }) := by
  rw [Sink.write, lift_bind_run, print_run]
  cases env.outputFault <;> rfl

theorem write_file_run (secondary : Option Path) (page : Text) (path : Path) (env : Environment) :
    (Sink.write secondary page (.file path) : ExceptT Failure (StateM Environment) Unit).run env =
      match env.files.write path (.text page) with
      | .error cause => (.error (.unwritable path cause), env)
      | .ok files =>
        (.ok (), match secondary with
          | none => { env with files := files }
          | some directory =>
            ((copyTo directory path : StateM Environment Unit) { env with files := files }).2) := by
  unfold Sink.write
  rw [lift_bind_run, writeText_run]
  cases env.files.write path (.text page) with
  | error cause => rfl
  | ok files => cases secondary <;> rfl

theorem copyPath_fileName {fs : FileSystem} {directory output : Path} {name other : Text}
    {beside : Place} (hname : output.fileName? = some name) (h : Path.IsName name)
    (hopens : fs.Opens (copyPath directory output) beside other) : other = name := by
  have hcopy : Path.fileName? (copyPath directory output) = some name := by
    rw [copyPath, hname, Option.getD_some, Path.fileName?_join h]
  exact Option.some.inj (hopens.fileName?_eq.symm.trans hcopy)

theorem contents_of_copy {files made last : FileSystem} {directory path : Path} {page : Text}
    {around : Place} {name : Text} (hopens : files.Opens path around name)
    (hadds : (files.set (name :: around) (.file (.text page))).Adds made (directory.join "docs"))
    (hcopy : made.copy path (copyPath directory path) = .ok last) :
    ∃ beside contents, made.Opens (copyPath directory path) beside name ∧
      last = made.set (name :: beside) (.file contents) ∧
      (last.Same (copyPath directory path) path ∧ contents = .text [] ∨
        ¬ last.Same (copyPath directory path) path ∧ contents = .text page) := by
  obtain ⟨beside, other, contents, hcopies, hlast, hcontents⟩ := FileSystem.copy_eq_ok hcopy
  obtain rfl := copyPath_fileName hopens.fileName?_eq hopens.isName hcopies
  refine ⟨beside, contents, hcopies, hlast, hcontents.imp_right (And.imp_right ?_)⟩
  intro hread
  have hkeeps := (hopens.keeps_set (.text page)).trans hadds.toKeeps
  have hget := hadds.get?_eq (files.get?_set_self (List.cons_ne_nil other around) _)
  have hlocate := hopens.locate hkeeps (by rw [hget]; rfl)
  have hpage := FileSystem.contents_eq_ok_iff.2 ⟨_, hlocate, hget⟩
  exact Except.ok.inj (hread.symm.trans hpage)

theorem deliver_run (secondary : Option Path) (page : Text) (path : Path) (env : Environment) :
    (∃ cause, env.files.write path (.text page) = .error cause ∧
      (Sink.write secondary page (.file path) : ExceptT Failure (StateM Environment) Unit).run env =
        (.error (.unwritable path cause), env)) ∨
    ∃ last ws, Delivered env.files path page secondary last ws ∧
      (Sink.write secondary page (.file path) : ExceptT Failure (StateM Environment) Unit).run env =
        (.ok (), { env with files := last }.warned ws) := by
  rw [write_file_run]
  cases hwrite : env.files.write path (.text page) with
  | error cause => exact .inl ⟨cause, rfl, rfl⟩
  | ok files =>
    obtain ⟨around, name, -, hopens, rfl⟩ := FileSystem.write_eq_ok_iff.1 hwrite
    right
    dsimp only
    cases secondary with
    | none => exact ⟨_, [], .alone hopens, by rw [Environment.warned_nil]⟩
    | some directory =>
      let written := env.files.set (name :: around) (.file (.text page))
      have hadds := FileSystem.adds_createDirectories written (directory.join "docs")
      obtain ⟨cause, hfault, hrun⟩ | ⟨last, hmade, hcopy, hrun⟩ :=
        copyTo_run hopens.fileName?_eq directory { env with files := written }
      · exact ⟨_, _, .uncopied hopens hadds hfault.not_copyMade hfault, congrArg (Except.ok (), ·) hrun⟩
      · obtain ⟨beside, contents, hcopies, hlast, hcontents⟩ := contents_of_copy hopens hadds hcopy
        refine ⟨last, [], .copied hopens hadds hmade hcopy hcopies hlast
          (hcontents.imp And.left And.right), ?_⟩
        rw [Environment.warned_nil, ← hrun]

namespace Delivered

open FileSystem

variable {files last : FileSystem} {path : Path} {page : Text} {secondary : Option Path}
  {ws : List Warning}

theorem keeps (h : Delivered files path page secondary last ws) : Keeps files last := by
  cases h with
  | alone hopens => exact hopens.keeps_set _
  | uncopied hopens hadds => exact (hopens.keeps_set _).trans hadds.toKeeps
  | copied hopens hadds _ _ hcopies hlast =>
    exact ((hopens.keeps_set _).trans hadds.toKeeps).trans (hlast ▸ hcopies.keeps_set _)

theorem get?_made {around : Place} {name : Text} {made : FileSystem} {docs : Path}
    (hadds : (files.set (name :: around) (.file (.text page))).Adds made docs) :
    made.get? (name :: around) = some (.file (.text page)) :=
  hadds.get?_eq (get?_set_self files (List.cons_ne_nil name around) _)

theorem readText (h : Delivered files path page secondary last ws)
    (hcopy : ∀ directory, secondary = some directory → ¬ last.Same (copyPath directory path) path) :
    last.readText path = .ok page := by
  have hkeeps := h.keeps
  cases h with
  | @alone around name hopens =>
    exact hopens.readText_of_get? hkeeps (get?_set_self files (List.cons_ne_nil name around) _)
  | uncopied hopens hadds => exact hopens.readText_of_get? hkeeps (get?_made hadds)
  | @copied around name directory made last contents beside hopens hadds _ _ hcopies hlast =>
    have hself := get?_set_self made (List.cons_ne_nil name beside) (.file contents)
    have hcopied : last.locate (copyPath directory path) = .ok (name :: beside) :=
      hcopies.locate (hlast ▸ hcopies.keeps_set contents) (by rw [hlast, hself]; rfl)
    have hne : name :: around ≠ name :: beside := by
      intro heq
      apply hcopy directory rfl
      refine ⟨_, hcopied, heq ▸ hopens.locate hkeeps ?_⟩
      rw [heq, hlast, hself]
      rfl
    apply hopens.readText_of_get? hkeeps
    rw [hlast, get?_set_of_ne made hne, get?_made hadds]

theorem exists_write (h : Delivered files path page secondary last ws) :
    ∃ written, files.write path (.text page) = .ok written := by
  cases h with
  | alone hopens => exact ⟨_, hopens.write_eq _⟩
  | uncopied hopens => exact ⟨_, hopens.write_eq _⟩
  | copied hopens => exact ⟨_, hopens.write_eq _⟩

theorem eq_of_copy {directory : Path} {written made copied : FileSystem}
    (h : Delivered files path page (some directory) last ws)
    (hwrite : files.write path (.text page) = .ok written)
    (hmade : written.createDirectories (directory.join "docs") = (.ok (), made))
    (hcopy : made.copy path (copyPath directory path) = .ok copied) : last = copied ∧ ws = [] := by
  obtain ⟨beside, other, -, hopens', rfl⟩ := write_eq_ok_iff.1 hwrite
  cases h with
  | uncopied hopens _ hnone =>
    cases hopens.unique hopens'
    exact absurd ⟨made, copied, hmade, hcopy⟩ hnone
  | copied hopens _ hmade' hcopied =>
    cases hopens.unique hopens'
    cases hmade'.symm.trans hmade
    cases hcopied.symm.trans hcopy
    exact ⟨rfl, rfl⟩

theorem readText_copy {directory : Path} (h : Delivered files path page (some directory) last [])
    (hcopy : ¬ last.Same (copyPath directory path) path) :
    last.readText (copyPath directory path) = .ok page := by
  cases h with
  | @copied around name directory made last contents beside hopens hadds _ _ hcopies hlast hcontents =>
    have hpage : contents = .text page := hcontents.resolve_left hcopy
    have hself := get?_set_self made (List.cons_ne_nil name beside) (.file contents)
    rw [hpage] at hlast hself
    exact hcopies.readText_of_get? (hlast ▸ hcopies.keeps_set _) (hlast ▸ hself)

end Delivered

namespace Arguments

variable {a : Arguments}

def jobIn (a : Arguments) (files : FileSystem) : Job :=
  ⟨a.options, Settings.inFile files a.settingsFile, a.secondary⟩

def delivery (a : Arguments) (files : FileSystem) (input : Contents) : Except Failure (Sink × Text) :=
  match a.source with
  | .error cause => .error cause
  | .ok source =>
    match a.sink with
    | .error cause => .error cause
    | .ok sink => ((a.jobIn files).pageIn files input source).map (sink, ·)

theorem delivery_eq {source : Source} {sink : Sink} {files : FileSystem} {settings : Settings}
    (hsource : a.source = .ok source) (hsink : a.sink = .ok sink)
    (hsettings : Settings.inFile files a.settingsFile = settings) (input : Contents) :
    a.delivery files input =
      (Job.pageIn ⟨a.options, settings, a.secondary⟩ files input source).map (sink, ·) := by
  rw [delivery, hsource, hsink, jobIn, hsettings]

theorem task_eq (h : a.search = none) :
    a.task = a.source >>= fun source => a.sink >>= fun sink => .ok (.single source sink) := by
  unfold task
  rw [h]
  cases a.output <;> rfl

theorem execute_task_run (a : Arguments) (env : Environment) :
    let start := { env with files := env.files.withSettings a.settingsFile }
    let job := a.jobIn start.files
    ∃ ws, (a.execute : ExceptT Failure (StateM Environment) Unit).run env =
      match a.task with
      | .error cause => (.error cause, start.warned ws)
      | .ok (.single source sink) =>
        (job.convert source sink : ExceptT Failure (StateM Environment) Unit).run (start.warned ws)
      | .ok (.search s) =>
        (s.run job : ExceptT Failure (StateM Environment) Unit).run (start.warned ws) := by
  intro start job
  obtain ⟨ws, hsettings⟩ := loadOrCreate_run a.settingsFile env
  refine ⟨ws, ?_⟩
  rw [execute, lift_bind_run, hsettings, try_bind_run, mk_pure_run]
  cases a.task with
  | error cause => rfl
  | ok task => cases task <;> rfl

theorem execute_run (h : a.search = none) (env : Environment) :
    let start := { env with files := env.files.withSettings a.settingsFile }
    ∃ ws, (a.execute : ExceptT Failure (StateM Environment) Unit).run env =
      match a.delivery start.files env.input with
      | .error cause => (.error cause, start.warned ws)
      | .ok (sink, page) =>
        (sink.write a.secondary page : ExceptT Failure (StateM Environment) Unit).run (start.warned ws) := by
  intro start
  obtain ⟨ws, hexecute⟩ := a.execute_task_run env
  rw [hexecute, task_eq h, delivery]
  cases a.source with
  | error cause => exact ⟨ws, rfl⟩
  | ok source =>
    cases a.sink with
    | error cause => exact ⟨ws, rfl⟩
    | ok sink =>
      obtain ⟨more, hconvert⟩ := (a.jobIn start.files).convert_run source sink (start.warned ws)
      refine ⟨ws ++ more, ?_⟩
      rw [← start.warned_warned]
      refine hconvert.trans ?_
      dsimp only [start, Environment.files_warned, Environment.input_warned]
      cases Job.pageIn _ _ env.input source <;> rfl

end Arguments

theorem run_eq {arguments : List Text} {a : Arguments} (h : Arguments.parse arguments = .ok a)
    (env : Environment) :
    (run arguments : StateM Environment Ending) env =
      match (a.execute : ExceptT Failure (StateM Environment) Unit).run env with
      | (.ok _, last) => (.finished, last)
      | (.error cause, last) => (.failed cause, last) := by
  rw [run, h]
  dsimp only
  rw [bind_run]
  obtain ⟨result, last⟩ := (a.execute : ExceptT Failure (StateM Environment) Unit).run env
  cases result <;> rfl

/-- How a run without a search ends, from the files with the settings file: it fails and leaves them as
they are, or the page is printed and they are left as they are, or the page is in its file. -/
inductive Ends (a : Arguments) (start : FileSystem) (input : Contents) (outputFault : Option FileError) :
    Ending → Environment → Prop
  | failed {cause : Failure} {last : Environment} (hfiles : last.files = start)
    (houtput : last.output = [])
    (hcause : a.delivery start input = .error cause ∨
      (∃ path page fault, a.delivery start input = .ok (.file path, page) ∧
        start.write path (.text page) = .error fault ∧ cause = .unwritable path fault) ∨
      ∃ page fault, a.delivery start input = .ok (.stdout, page) ∧ outputFault = some fault ∧
        cause = .unprintable fault) :
    Ends a start input outputFault (.failed cause) last
  | printed {page : Text} {last : Environment} (hpage : a.delivery start input = .ok (.stdout, page))
    (hfault : outputFault = none) (hfiles : last.files = start) (houtput : last.output = page) :
    Ends a start input outputFault .finished last
  | written {path : Path} {page : Text} {last : Environment} {written : FileSystem} {ws : List Warning}
    (hpage : a.delivery start input = .ok (.file path, page)) (houtput : last.output = [])
    (hwrite : start.write path (.text page) = .ok written)
    (hfiles : Delivered start path page a.secondary last.files ws) (hwarned : ws ⊆ last.warnings)
    (hread : (∀ directory, a.secondary = some directory →
        ¬ last.files.Same (copyPath directory path) path) →
      last.files.readText path = .ok page ∧
      ∀ directory, a.secondary = some directory → CopyMade written directory path →
        last.files.readText (copyPath directory path) = .ok page) :
    Ends a start input outputFault .finished last

theorem ends_of_run {arguments : List Text} {a : Arguments} (hparse : Arguments.parse arguments = .ok a)
    (hsearch : a.search = none) (files : FileSystem) (input : Contents) (outputFault : Option FileError) :
    let result := (run arguments : StateM Environment Ending) (.ofFiles files input outputFault)
    Ends a (files.withSettings a.settingsFile) input outputFault result.1 result.2 := by
  intro result
  obtain ⟨ws, hexecute⟩ := a.execute_run hsearch (.ofFiles files input outputFault)
  have hrun : result = _ := run_eq hparse (.ofFiles files input outputFault)
  rw [hexecute] at hrun
  dsimp only [Environment.ofFiles] at hrun
  cases hdelivery : a.delivery (files.withSettings a.settingsFile) input with
  | error cause =>
    rw [hdelivery] at hrun
    rw [hrun]
    exact .failed rfl rfl (.inl hdelivery)
  | ok delivered =>
    obtain ⟨sink, page⟩ := delivered
    let start : Environment := ⟨files.withSettings a.settingsFile, input, [], [], outputFault⟩
    rw [hdelivery] at hrun
    dsimp only at hrun
    cases sink with
    | stdout =>
      have hprint := write_stdout_run a.secondary page (start.warned ws)
      rw [hrun, hprint, Environment.outputFault_warned]
      cases outputFault with
      | none => exact .printed hdelivery rfl rfl rfl
      | some fault => exact .failed rfl rfl (.inr (.inr ⟨page, fault, hdelivery, rfl, rfl⟩))
    | file path =>
      obtain ⟨fault, hwrite, hdeliver⟩ | ⟨last, more, hdelivered, hdeliver⟩ :=
        deliver_run a.secondary page path (start.warned ws)
      · rw [hrun, hdeliver]
        exact .failed rfl rfl (.inr (.inl ⟨path, page, fault, hdelivery, hwrite, rfl⟩))
      · obtain ⟨written, hwrite⟩ := hdelivered.exists_write
        rw [hrun, hdeliver]
        refine .written hdelivery rfl hwrite hdelivered (List.subset_append_right ws more) ?_
        intro hother
        refine ⟨hdelivered.readText hother, ?_⟩
        rintro directory hdirectory ⟨made, copied, hmade, hcopy⟩
        rw [hdirectory] at hdelivered
        obtain ⟨-, rfl⟩ := hdelivered.eq_of_copy hwrite hmade hcopy
        exact hdelivered.readText_copy (hother directory hdirectory)

namespace Ends

variable {a : Arguments} {start : FileSystem} {input : Contents} {outputFault : Option FileError}
  {ending : Ending} {last : Environment}

theorem of_error {cause : Failure} (h : Ends a start input outputFault ending last)
    (hdelivery : a.delivery start input = .error cause) : ending = .failed cause ∧ last.files = start := by
  cases h with
  | failed hfiles _ hcause =>
    obtain hcause | ⟨path, page, fault, hcause, -⟩ | ⟨page, fault, hcause, -⟩ := hcause
    · cases hdelivery.symm.trans hcause
      exact ⟨rfl, hfiles⟩
    · cases hdelivery.symm.trans hcause
    · cases hdelivery.symm.trans hcause
  | printed hpage => cases hdelivery.symm.trans hpage
  | written hpage => cases hdelivery.symm.trans hpage

theorem of_outputFault {page : Text} {fault : FileError} (h : Ends a start input (some fault) ending last)
    (hdelivery : a.delivery start input = .ok (.stdout, page)) :
    ending = .failed (.unprintable fault) ∧ last.files = start := by
  cases h with
  | failed hfiles _ hcause =>
    obtain hcause | ⟨path, page, fault, hcause, -⟩ | ⟨page, fault, hcause, hfault, rfl⟩ := hcause
    · cases hdelivery.symm.trans hcause
    · cases hdelivery.symm.trans hcause
    · cases hfault
      exact ⟨rfl, hfiles⟩
  | printed hpage hfault => cases hfault
  | written hpage => cases hdelivery.symm.trans hpage

theorem of_write {path : Path} {page : Text} {written : FileSystem}
    (h : Ends a start input outputFault ending last)
    (hdelivery : a.delivery start input = .ok (.file path, page))
    (hwrite : start.write path (.text page) = .ok written) :
    ending = .finished ∧ ∃ ws, Delivered start path page a.secondary last.files ws ∧
      ((∀ directory, a.secondary = some directory → ¬ last.files.Same (copyPath directory path) path) →
        last.files.readText path = .ok page ∧
        ∀ directory, a.secondary = some directory → CopyMade written directory path →
          last.files.readText (copyPath directory path) = .ok page) := by
  cases h with
  | failed _ _ hcause =>
    obtain hcause | ⟨path, page, fault, hcause, hfault, -⟩ | ⟨page, fault, hcause, -⟩ := hcause
    · cases hdelivery.symm.trans hcause
    · cases hdelivery.symm.trans hcause
      cases hwrite.symm.trans hfault
    · cases hdelivery.symm.trans hcause
  | printed hpage => cases hdelivery.symm.trans hpage
  | written hpage _ hwrite' hdelivered _ hread =>
    cases hdelivery.symm.trans hpage
    cases hwrite.symm.trans hwrite'
    exact ⟨rfl, _, hdelivered, hread⟩

end Ends

theorem single_run_leaves_page_or_nothing {arguments : List Text} {a : Arguments}
    (hparse : Arguments.parse arguments = .ok a) (hsearch : a.search = none) (files : FileSystem)
    (input : Contents) (outputFault : Option FileError) :
    let result := (run arguments : StateM Environment Ending) (.ofFiles files input outputFault)
    ∃ start, Ends a start input outputFault result.1 result.2 ∧
      (start = files ∨ files.find a.settingsFile = none ∧ ∃ place, files.get? place = none ∧
        start.locate a.settingsFile = .ok place ∧
        start = files.set place (.file (.text Settings.empty.toJson))) := by
  intro result
  refine ⟨files.withSettings a.settingsFile, ends_of_run hparse hsearch files input outputFault, ?_⟩
  obtain hsame | ⟨around, name, hopens, hnone, hset⟩ := files.withSettings_cases a.settingsFile
  · exact .inl hsame
  · refine .inr ⟨hopens.find_eq.trans hnone, _, hnone, ?_, hset⟩
    rw [hset]
    apply hopens.locate (hopens.keeps_set _)
    rw [FileSystem.get?_set_self files (List.cons_ne_nil name around)]
    rfl

def blinkSource : Text :=
  "<doc><assembly><name>A</name><blink/></assembly></doc>"

def blinkFiles : FileSystem :=
  ⟨["work"], [(["work"], .directory), (["settings.json", "work"], .file (.text "\x7b\x7d")),
    (["A.xml", "work"], .file (.text blinkSource)), (["A.md", "work"], .file (.text "Old."))]⟩

def blinkDocument : Document :=
  ⟨⟨⟨"doc", [], ⟨1, 1⟩⟩, [.element ⟨"assembly", [], ⟨1, 6⟩⟩
    [.element ⟨"name", [], ⟨1, 16⟩⟩ [.text "A"], .element ⟨"blink", [], ⟨1, 30⟩⟩ []]]⟩⟩

def blinkPage : Text :=
  "# A\n\n" ++ footer

def blinkArguments (policy : Policy) (stdout : Bool) : Arguments :=
  ⟨⟨policy, .perAssembly⟩, "settings.json", some "A.xml", some "A.md", some "site", false, stdout, none,
    "Release", false⟩

def blinkWritten : FileSystem :=
  blinkFiles.set ["A.md", "work"] (.file (.text blinkPage))

def blinkMade : FileSystem :=
  (blinkWritten.set ["site", "work"] .directory).set ["docs", "site", "work"] .directory

theorem delivery_blink {policy : Policy} (stdout : Bool) {result : Except UnknownTag Text}
    (h : ((blinkDocument.prepare []).render ⟨policy, .perAssembly⟩ .unknown).result = result) :
    (blinkArguments policy stdout).delivery blinkFiles (.text []) =
      match result with
      | .error cause => .error (.unknownTag cause)
      | .ok page => .ok (if stdout then .stdout else .file "A.md", page ++ footer) := by
  have hsettings : Settings.inFile blinkFiles "settings.json" = .empty := FileSystem.inFile_of_braces rfl
  have hsource : (blinkArguments policy stdout).source = .ok (.file "A.xml") := rfl
  have hsink : (blinkArguments policy stdout).sink =
      .ok (if stdout then .stdout else .file "A.md") := by
    cases stdout <;> rfl
  have htext : Source.textIn blinkFiles (.text []) (.file "A.xml") = .ok blinkSource := rfl
  have hdocument : Document.parse blinkSource = .ok blinkDocument := by cbv
  let job : Job := ⟨⟨policy, .perAssembly⟩, .empty, some "site"⟩
  have hjob : (job.page (Source.resolverIn blinkFiles (.file "A.xml")) blinkDocument).result = result := h
  rw [Arguments.delivery_eq hsource hsink hsettings, Job.pageIn_of_parse htext hdocument]
  change Except.map _ (match (job.page _ _).result with | .error cause => _ | .ok page => _) = _
  rw [hjob]
  cases result <;> rfl

theorem single_run_leaves_page_or_nothing_blink :
    let arguments : List Text := ["-i", "A.xml", "-o", "A.md", "-l", "site"]
    let result (more : List Text) (outputFault : Option FileError) :=
      (run (arguments ++ more) : StateM Environment Ending) (.ofFiles blinkFiles (.text []) outputFault)
    let failed := result [] none
    let muted := result ["-u", "accept", "--cout"] (some (.other "Broken pipe"))
    let finished := result ["-u", "accept"] none
    Arguments.parse arguments = .ok (blinkArguments .error false) ∧
      (blinkArguments .error false).search = none ∧
      (failed.1 = .failed (.unknownTag ⟨"blink", ⟨1, 30⟩⟩) ∧ failed.2.files = blinkFiles) ∧
      (muted.1 = .failed (.unprintable (.other "Broken pipe")) ∧ muted.2.files = blinkFiles) ∧
      finished.1 = .finished ∧ finished.2.files.readText "A.md" = .ok blinkPage ∧
      finished.2.files.readText "site/docs/A.md" = .ok blinkPage := by
  intro arguments result failed muted finished
  have hends (policy : Policy) (stdout : Bool) (more : List Text) (outputFault : Option FileError)
      (hparse : Arguments.parse (arguments ++ more) = .ok (blinkArguments policy stdout)) :
      Ends (blinkArguments policy stdout) blinkFiles (.text []) outputFault (result more outputFault).1
        (result more outputFault).2 := by
    have hthere : blinkFiles.find "settings.json" ≠ none := by decide
    obtain ⟨start, hends, rfl | ⟨hnone, -⟩⟩ :=
      single_run_leaves_page_or_nothing hparse rfl blinkFiles (.text []) outputFault
    · exact hends
    · exact absurd hnone hthere
  have hunknown : ((blinkDocument.prepare []).render ⟨.error, .perAssembly⟩ .unknown).result =
      .error ⟨"blink", ⟨1, 30⟩⟩ := by decide +kernel
  have hpage : ((blinkDocument.prepare []).render ⟨.accept, .perAssembly⟩ .unknown).result =
      .ok "# A\n\n" := by decide +kernel
  refine ⟨rfl, rfl, (hends .error false [] none rfl).of_error (delivery_blink false hunknown),
    (hends .accept true ["-u", "accept", "--cout"] _ rfl).of_outputFault (delivery_blink true hpage), ?_⟩
  have hwrite : blinkFiles.write "A.md" (.text blinkPage) = .ok blinkWritten := rfl
  have hmade : blinkWritten.createDirectories "site/docs" = (.ok (), blinkMade) := by cbv
  obtain ⟨hfinished, ws, hdelivered, hread⟩ :=
    (hends .accept false ["-u", "accept"] none rfl).of_write (delivery_blink false hpage) hwrite
  obtain ⟨hlast, -⟩ := hdelivered.eq_of_copy hwrite hmade rfl
  have hother : ¬ finished.2.files.Same "site/docs/A.md" "A.md" := by
    rw [hlast]
    rintro ⟨place, hcopy, hpath⟩
    cases hcopy
    cases hpath
  obtain ⟨hpage, hcopy⟩ := hread fun directory hdirectory => by
    cases hdirectory
    exact hother
  exact ⟨hfinished, hpage, hcopy "site" rfl ⟨_, _, hmade, rfl⟩⟩

end Command
end Docmark
