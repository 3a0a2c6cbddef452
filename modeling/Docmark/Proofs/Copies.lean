import Docmark.Proofs.Search

namespace Docmark.Command

open FileSystem

variable {files written between last : FileSystem} {directory path : Path} {page : Text} {job : Job}
  {input : Contents}

/-- What is in an output file and in its copy: the page, unless the copy goes to the output file itself,
which then is empty. -/
structure CopyLeaves (written : FileSystem) (directory path : Path) (page : Text) (last : FileSystem) :
    Prop where
  page_iff : last.readText path = .ok page ↔
    ¬ (CopyMade written directory path ∧ last.Same (copyPath directory path) path)
  emptied : CopyMade written directory path → last.Same (copyPath directory path) path →
    last.readText path = .ok []
  copied : CopyMade written directory path → last.readText (copyPath directory path) = last.readText path

theorem footer_ne_nil : footer ≠ [] := by
  decide

theorem Job.pageIn_ne_nil {source : Source} (h : job.pageIn files input source = .ok page) : page ≠ [] := by
  rw [Job.pageIn] at h
  repeat' split at h
  · cases h
  · cases h
  · cases h
  · cases h
    exact List.append_ne_nil_of_right_ne_nil _ footer_ne_nil

theorem copyLeaves_of_same {made : FileSystem} {beside : Place} {name : Text} (hpage : page ≠ [])
    (hmade : CopyMade written directory path) (hopens : made.Opens (copyPath directory path) beside name)
    (hlast : last = made.set (name :: beside) (.file (.text [])))
    (hsame : last.Same (copyPath directory path) path) : CopyLeaves written directory path page last := by
  have hget : last.get? (name :: beside) = some (.file (.text [])) := by
    rw [hlast, get?_set_self made (List.cons_ne_nil name beside)]
  have hcopy : last.locate (copyPath directory path) = .ok (name :: beside) := by
    apply hopens.locate (hlast ▸ hopens.keeps_set _)
    rw [hget]
    rfl
  obtain ⟨place, hcopy', hpath⟩ := hsame
  cases hcopy.symm.trans hcopy'
  have hempty : last.readText path = .ok [] := readText_eq_ok_iff.2 ⟨_, hpath, hget⟩
  have hempty' : last.readText (copyPath directory path) = .ok [] :=
    readText_eq_ok_iff.2 ⟨_, hcopy, hget⟩
  refine ⟨?_, fun _ _ => hempty, fun _ => hempty'.trans hempty.symm⟩
  constructor
  · intro hread
    exact absurd (Except.ok.inj (hread.symm.trans hempty)) hpage
  · intro hother
    exact absurd ⟨hmade, _, hcopy, hpath⟩ hother

theorem copyLeaves_of_write (hpage : page ≠ []) {env next : Environment}
    (h : (Sink.write (some directory) page (.file path) : ExceptT Failure (StateM Environment) Unit).run env =
      (.ok (), next)) :
    ∃ written, env.files.write path (.text page) = .ok written ∧
      CopyLeaves written directory path page next.files := by
  rw [write_file_run] at h
  cases hwrite : env.files.write path (.text page) with
  | error cause =>
    rw [hwrite] at h
    cases h
  | ok written =>
    rw [hwrite] at h
    obtain ⟨around, name, -, hopens, rfl⟩ := write_eq_ok_iff.1 hwrite
    refine ⟨_, rfl, ?_⟩
    let written := env.files.set (name :: around) (.file (.text page))
    have hadds := adds_createDirectories written (directory.join "docs")
    obtain rfl := (Prod.mk.inj h).2
    dsimp only
    obtain ⟨cause, hfault, hrun⟩ | ⟨last, hmade, hcopy, hrun⟩ :=
      copyTo_run hopens.fileName?_eq directory { env with files := written }
    · -- Without a copy only directories come on top of the page.
      have hread := hopens.readText_of_get? ((hopens.keeps_set _).trans hadds.toKeeps)
        (Delivered.get?_made hadds)
      have hnone := hfault.not_copyMade
      rw [hrun]
      exact ⟨iff_of_true hread fun hboth => hnone hboth.1, fun hm => absurd hm hnone, fun hm => absurd hm hnone⟩
    · obtain ⟨beside, contents, hcopies, hlast, ⟨hsame, rfl⟩ | ⟨hother, rfl⟩⟩ :=
        contents_of_copy hopens hadds hcopy
      · rw [hrun]
        exact copyLeaves_of_same hpage ⟨_, _, hmade, hcopy⟩ hcopies hlast hsame
      · have hdelivered : Delivered env.files path page (some directory) last [] :=
          .copied hopens hadds hmade hcopy hcopies hlast (.inr rfl)
        have hread := hdelivered.readText fun directory' hdirectory => by
          cases hdirectory
          exact hother
        rw [hrun]
        exact ⟨iff_of_true hread fun hboth => hother hboth.2, fun _ hsame => absurd hsame hother,
          fun _ => (hdelivered.readText_copy hother).trans hread.symm⟩

theorem delivered_of_write {secondary : Option Path} {env next : Environment}
    (h : (Sink.write secondary page (.file path) : ExceptT Failure (StateM Environment) Unit).run env =
      (.ok (), next)) : ∃ ws, Delivered env.files path page secondary next.files ws := by
  obtain ⟨cause, -, hfailed⟩ | ⟨last, ws, hdelivered, hrun⟩ := deliver_run secondary page path env
  · cases hfailed.symm.trans h
  · cases hrun.symm.trans h
    exact ⟨ws, hdelivered⟩

theorem exists_of_locate_copyPath {name : Text} {place : Place} (hname : path.fileName? = some name)
    (h : files.locate (copyPath directory path) = .ok place) : ∃ beside, place = name :: beside := by
  have hjoin : copyPath directory path = (directory.join "docs").join name := by
    rw [copyPath, hname, Option.getD_some]
  have hdocs : directory.join "docs" ≠ [] := by
    rw [Path.join_eq ⟨by decide, by decide, by decide, by decide⟩]
    simp
  exact exists_of_locate_join hdocs (Path.isName_of_fileName? hname) (hjoin ▸ h)

theorem CopyLeaves.later {name : Text} {around : Place} {more : Text → Prop} (hpage : page ≠ [])
    (h : CopyLeaves written directory path page between) (hlater : Later more between last)
    (hname : path.fileName? = some name) (hmore : ¬ more name)
    (hlocate : between.locate path = .ok (name :: around)) : CopyLeaves written directory path page last := by
  have hread {t : Text} (ht : between.readText path = .ok t) : last.readText path = .ok t :=
    hlater.readText hlocate hmore ht
  have hcopy {t : Text} (ht : between.readText (copyPath directory path) = .ok t) :
      last.readText (copyPath directory path) = .ok t := by
    obtain ⟨place, hplace, -⟩ := readText_eq_ok_iff.1 ht
    obtain ⟨beside, rfl⟩ := exists_of_locate_copyPath hname hplace
    exact hlater.readText hplace hmore ht
  have hsame (hm : CopyMade written directory path) (hs : last.Same (copyPath directory path) path) :
      between.Same (copyPath directory path) path := by
    -- Otherwise the copy is there as well, and its path keeps leading to another file.
    by_contra hother
    have hpath := h.page_iff.2 fun hboth => hother hboth.2
    obtain ⟨place, hplace, -⟩ := readText_eq_ok_iff.1 ((h.copied hm).trans hpath)
    obtain ⟨place', hcopied, hpath'⟩ := hs
    have hkeeps := hlater.toKeeps
    cases (hkeeps.locate hplace).symm.trans hcopied
    cases (hkeeps.locate hlocate).symm.trans hpath'
    exact hother ⟨_, hplace, hlocate⟩
  have hempty (hm : CopyMade written directory path) (hs : last.Same (copyPath directory path) path) :
      last.readText path = .ok [] := hread (h.emptied hm (hsame hm hs))
  refine ⟨?_, hempty, ?_⟩
  · constructor
    · rintro hlast ⟨hm, hs⟩
      exact hpage (Except.ok.inj (hlast.symm.trans (hempty hm hs)))
    · intro hnone
      exact hread (h.page_iff.2 fun hboth => hnone (hboth.imp_right hlater.toKeeps.same))
  · intro hm
    by_cases hs : between.Same (copyPath directory path) path
    · have hpath := h.emptied hm hs
      rw [hread hpath, hcopy ((h.copied hm).trans hpath)]
    · have hpath := h.page_iff.2 fun hboth => hs hboth.2
      rw [hread hpath, hcopy ((h.copied hm).trans hpath)]

theorem try_bind_run_eq_ok {α β : Type} {x : ExceptT Failure (StateM Environment) α}
    {f : α → ExceptT Failure (StateM Environment) β} {env final : Environment} {b : β} :
    (x >>= f).run env = (.ok b, final) ↔
      ∃ a mid, x.run env = (.ok a, mid) ∧ (f a).run mid = (.ok b, final) := by
  rw [try_bind_run]
  obtain ⟨result, mid⟩ := x.run env
  constructor
  · intro h
    cases result with
    | error cause => cases h
    | ok a => exact ⟨a, mid, rfl, h⟩
  · rintro ⟨a, mid', hx, h⟩
    cases hx
    exact h

theorem forM_append_run {before behind : List Path} {p : Path}
    {f : Path → ExceptT Failure (StateM Environment) Unit} {env final : Environment}
    (h : ((before ++ p :: behind).forM f).run env = (.ok (), final)) :
    ∃ mid next, (before.forM f).run env = (.ok (), mid) ∧ (f p).run mid = (.ok (), next) ∧
      (behind.forM f).run next = (.ok (), final) := by
  rw [List.forM_eq_forM, List.forM_append, List.forM_cons] at h
  obtain ⟨_, mid, hbefore, h⟩ := try_bind_run_eq_ok.1 h
  obtain ⟨_, next, hp, hbehind⟩ := try_bind_run_eq_ok.1 h
  exact ⟨mid, next, hbefore, hp, hbehind⟩

theorem convert_file_run {source : Source} {env next : Environment}
    (h : (job.convert source (.file path) : ExceptT Failure (StateM Environment) Unit).run env =
      (.ok (), next)) :
    ∃ page ws, job.pageIn env.files env.input source = .ok page ∧
      (Sink.write job.secondary page (.file path) : ExceptT Failure (StateM Environment) Unit).run
        (env.warned ws) = (.ok (), next) := by
  obtain ⟨ws, hconvert⟩ := job.convert_run source (.file path) env
  rw [hconvert] at h
  cases hpage : job.pageIn env.files env.input source with
  | error cause =>
    rw [hpage] at h
    cases h
  | ok page =>
    rw [hpage] at h
    exact ⟨page, ws, rfl, h⟩

theorem conversions_of_run {outputFor : Path → Path} {ps : List Path} {env final : Environment}
    (h : (ps.forM fun p => (job.convert (.file p) (.file (outputFor p)) :
      ExceptT Failure (StateM Environment) Unit)).run env = (.ok (), final)) :
    Conversions job env.input outputFor ps env.files (.ok ()) final.files ∧ final.input = env.input := by
  obtain ⟨result, last, ws, hconversions, hrun⟩ := conversions_run job outputFor ps env
  cases hrun.symm.trans h
  exact ⟨hconversions, rfl⟩

theorem run_finished {arguments : List Text} {a : Arguments} (hparse : Arguments.parse arguments = .ok a)
    {env : Environment} (h : ((run arguments : StateM Environment Ending) env).1 = .finished) :
    (a.execute : ExceptT Failure (StateM Environment) Unit).run env =
      (.ok (), ((run arguments : StateM Environment Ending) env).2) := by
  rw [run_eq hparse] at h ⊢
  cases hexecuted : (a.execute : ExceptT Failure (StateM Environment) Unit).run env with
  | mk result last =>
    rw [hexecuted] at h
    cases result with
    | error cause => cases h
    | ok _ => rfl

theorem delivery_eq_ok {a : Arguments} {sink : Sink} (h : a.delivery files input = .ok (sink, page)) :
    ∃ source, a.source = .ok source ∧ a.sink = .ok sink ∧
      (a.jobIn files).pageIn files input source = .ok page := by
  rw [Arguments.delivery] at h
  cases hsource : a.source with
  | error cause =>
    rw [hsource] at h
    cases h
  | ok source =>
    cases hsink : a.sink with
    | error cause =>
      rw [hsource, hsink] at h
      cases h
    | ok sink' =>
      cases hpage : (a.jobIn files).pageIn files input source with
      | error cause =>
        rw [hsource, hsink] at h
        simp [hpage, Except.map] at h
      | ok page' =>
        rw [hsource, hsink] at h
        simp only [hpage, Except.map, Except.ok.injEq, Prod.mk.injEq] at h
        obtain ⟨rfl, rfl⟩ := h
        exact ⟨source, rfl, rfl, hpage⟩

theorem search_run_eq_ok {s : Search} {env final : Environment}
    (h : (s.run job : ExceptT Failure (StateM Environment) Unit).run env = (.ok (), final)) :
    ∃ start, env.files.createDirectories s.output = (.ok (), start) ∧
      ((s.inputsIn job.settings start).forM fun p => (job.convert (.file p) (.file (s.outputFor p)) :
        ExceptT Failure (StateM Environment) Unit)).run { env with files := start } = (.ok (), final) := by
  rw [Search.run, lift_bind_run, Search.isDirectory_run] at h
  dsimp only at h
  cases hroot : env.files.isDirectory s.root with
  | false =>
    rw [hroot] at h
    cases h
  | true =>
    rw [hroot, if_neg (by simp), lift_bind_run, createDirectories_run] at h
    obtain ⟨⟨made, start⟩, hmade⟩ : ∃ made, env.files.createDirectories s.output = made := ⟨_, rfl⟩
    rw [hmade] at h
    cases made with
    | error cause => cases h
    | ok _ =>
      dsimp only at h
      rw [lift_bind_run, Search.files_run] at h
      exact ⟨start, hmade, h⟩

theorem copyLeaves_of_search {s : Search} {env final : Environment}
    (hsecondary : job.secondary = some directory)
    (h : (s.run job : ExceptT Failure (StateM Environment) Unit).run env = (.ok (), final))
    {before behind : List Path} {p : Path}
    (hinputs : s.inputsIn job.settings (env.files.createDirectories s.output).2 = before ++ p :: behind)
    (hlast : ∀ q ∈ behind, s.outputFor q ≠ s.outputFor p) :
    ∃ earlier page written,
      Conversions job env.input s.outputFor before (env.files.createDirectories s.output).2 (.ok ()) earlier ∧
      job.pageIn earlier env.input (.file p) = .ok page ∧
      earlier.write (s.outputFor p) (.text page) = .ok written ∧
      CopyLeaves written directory (s.outputFor p) page final.files := by
  obtain ⟨start, hmade, hsearched⟩ := search_run_eq_ok h
  rw [hmade] at hinputs ⊢
  dsimp only at hinputs ⊢
  rw [hinputs] at hsearched
  obtain ⟨mid, next, hbefore, hp, hbehind⟩ := forM_append_run hsearched
  obtain ⟨hbefore, hinput⟩ := conversions_of_run hbefore
  obtain ⟨page, ws, hpage, hwrite⟩ := convert_file_run hp
  obtain ⟨hbehind, -⟩ := conversions_of_run hbehind
  rw [hsecondary] at hwrite
  obtain ⟨written, hwritten, hleaves⟩ := copyLeaves_of_write (Job.pageIn_ne_nil hpage) hwrite
  obtain ⟨ws', hdelivered⟩ := delivered_of_write hwrite
  obtain ⟨name, around, hname, hlocate⟩ := hdelivered.exists_locate
  rw [hinput] at hpage
  refine ⟨mid.files, page, written, hbefore, hpage, hwritten, ?_⟩
  apply hleaves.later (Job.pageIn_ne_nil hpage) hbehind.later hname _ hlocate
  rintro ⟨q, hq, hsame⟩
  have hxml (r : Path) (hr : r ∈ before ++ p :: behind) : r.extension? = some ("xml" : Text) :=
    (Search.exists_below_of_mem_filesIn (List.mem_filter.1 (hinputs ▸ hr)).1).1
  exact hlast q hq (Search.fileName?_outputFor_inj (hxml q (by simp [hq])) (hxml p (by simp))
    (hsame.trans hname.symm))

theorem secondary_copy_keeps_output_iff {arguments : List Text} {a : Arguments} {directory : Path}
    (hparse : Arguments.parse arguments = .ok a) (hsecondary : a.secondary = some directory)
    (files : FileSystem) (input : Contents) :
    let result := (run arguments : StateM Environment Ending) (.ofFiles files input)
    let last := result.2.files
    let settled := files.withSettings a.settingsFile
    let job := a.jobIn settled
    result.1 = .finished →
    (a.search = none → ∀ path, a.sink = .ok (.file path) →
      ∃ page written, a.delivery settled input = .ok (.file path, page) ∧
        settled.write path (.text page) = .ok written ∧ CopyLeaves written directory path page last) ∧
    ∀ root out, a.search = some root → a.output = some out →
      let start := (settled.createDirectories out).2
      let s := a.searchOf root out
      ∀ before p behind, s.inputsIn job.settings start = before ++ p :: behind →
        (∀ q ∈ behind, s.outputFor q ≠ s.outputFor p) →
        ∃ earlier page written, Conversions job input s.outputFor before start (.ok ()) earlier ∧
          job.pageIn earlier input (.file p) = .ok page ∧
          earlier.write (s.outputFor p) (.text page) = .ok written ∧
          CopyLeaves written directory (s.outputFor p) page last := by
  intro result last settled job hfinished
  have hexecuted := run_finished hparse hfinished
  constructor
  · intro hsearch path hsink
    obtain ⟨ws, hexecute⟩ := a.execute_run hsearch (.ofFiles files input)
    rw [hexecute] at hexecuted
    dsimp only [Environment.ofFiles] at hexecuted
    cases hdelivery : a.delivery settled input with
    | error cause =>
      rw [hdelivery] at hexecuted
      cases hexecuted
    | ok delivered =>
      obtain ⟨sink, page⟩ := delivered
      obtain ⟨source, -, hsink', hpage⟩ := delivery_eq_ok hdelivery
      cases hsink.symm.trans hsink'
      rw [hdelivery, hsecondary] at hexecuted
      obtain ⟨written, hwrite, hleaves⟩ := copyLeaves_of_write (Job.pageIn_ne_nil hpage) hexecuted
      exact ⟨page, written, rfl, hwrite, hleaves⟩
  · intro root out hsearch hout start s before p behind hinputs hlast
    obtain ⟨ws, hexecute⟩ := a.execute_search_run hsearch hout (.ofFiles files input)
    exact copyLeaves_of_search hsecondary (hexecute.symm.trans hexecuted) hinputs hlast

def loopFiles : FileSystem :=
  ⟨["work"], [(["work"], .directory), (["settings.json", "work"], .file (.text "\x7b\x7d")),
    (["A.xml", "work"], .file (.text "<doc><assembly><name>A</name></assembly></doc>")),
    (["docs", "work"], .directory), (["A.md", "docs", "work"], .file (.text "Old."))]⟩

def loopArguments : Arguments :=
  ⟨⟨.error, .perAssembly⟩, "settings.json", some "A.xml", some "docs/A.md", some ".", false, false, none,
    "Release", false⟩

def loopWritten : FileSystem :=
  loopFiles.set ["A.md", "docs", "work"] (.file (.text (twinPage "A")))

theorem delivery_loop : loopArguments.delivery loopFiles (.text []) =
    .ok (.file "docs/A.md", twinPage "A") := by
  have hsettings : Settings.inFile loopFiles "settings.json" = .empty := inFile_of_braces rfl
  have hsource : loopArguments.source = .ok (.file "A.xml") := rfl
  have hsink : loopArguments.sink = .ok (.file "docs/A.md") := rfl
  have hpage : twinJob.pageIn loopFiles (.text []) (.file "A.xml") = .ok (twinPage "A") :=
    pageIn_twin (.inl rfl) rfl rfl
  rw [Arguments.delivery_eq hsource hsink hsettings]
  exact congrArg (Except.map _) hpage

theorem copyMade_loop : CopyMade loopWritten "." "docs/A.md" := by
  have hmade : loopWritten.createDirectories "./docs" = (.ok (), loopWritten) := by cbv
  exact ⟨loopWritten, _, hmade, rfl⟩

theorem secondary_copy_keeps_output_iff_loop :
    let arguments : List Text := ["-i", "A.xml", "-o", "docs/A.md", "-l", "."]
    let result := (run arguments : StateM Environment Ending) (.ofFiles loopFiles (.text []))
    Arguments.parse arguments = .ok loopArguments ∧ loopArguments.secondary = some ("." : Text) ∧
      loopArguments.delivery loopFiles (.text []) = .ok (.file "docs/A.md", twinPage "A") ∧
      result.1 = .finished ∧ result.2.files.readText "docs/A.md" = .ok [] := by
  intro arguments result
  have hparse : Arguments.parse arguments = .ok loopArguments := rfl
  have hsettled : loopFiles.withSettings loopArguments.settingsFile = loopFiles := by decide
  have hends := ends_of_run hparse rfl loopFiles (.text []) none
  rw [hsettled] at hends
  obtain ⟨hfinished, ws, hdelivered, -⟩ := hends.of_write delivery_loop rfl
  have hkeeps : Keeps loopFiles result.2.files := hdelivered.keeps
  obtain ⟨hsingle, -⟩ := secondary_copy_keeps_output_iff hparse rfl loopFiles (.text []) hfinished
  obtain ⟨page, written, hdelivery, hwrite, hleaves⟩ := hsingle rfl "docs/A.md" rfl
  rw [hsettled] at hdelivery hwrite
  cases delivery_loop.symm.trans hdelivery
  cases hwrite
  refine ⟨hparse, rfl, delivery_loop, hfinished, hleaves.emptied copyMade_loop ?_⟩
  have hcopy : loopFiles.locate (copyPath "." "docs/A.md") = .ok ["A.md", "docs", "work"] := rfl
  have houtput : loopFiles.locate "docs/A.md" = .ok ["A.md", "docs", "work"] := rfl
  exact ⟨_, hkeeps.locate hcopy, hkeeps.locate houtput⟩

end Docmark.Command
