import Docmark.Proofs.Records
import Docmark.Proofs.Runs

namespace Docmark

open Json Reader

namespace Settings

/-- JSON of the shape of settings: an object with the lists under their keys, where a key that is
missing leaves its list empty and other keys make no difference, or an array of the lists in order. -/
inductive Describes : Value → Settings → Prop
  | object {given : List (Quoted × Value)} {s : Settings} :
    (∀ entry ∈ given, ∃ key, entry.1.read = .ok key) →
    SaysField (SaysList SaysText) [] (valuesOf "FilesToIgnore" given) s.filesToIgnore →
    SaysField (SaysList SaysText) [] (valuesOf "NameSpacesToRemove" given) s.namespacesToRemove →
    Describes (.object given none) s
  | array {vs : List Value} {s : Settings} :
    SaysField (SaysList SaysText) [] (vs.take 1) s.filesToIgnore →
    SaysField (SaysList SaysText) [] (vs.drop 1) s.namespacesToRemove →
    Describes (.array vs none) s

def WrittenAs (s : Settings) (source : Text) : Prop :=
  ∃ v : Value, v.WrittenAs source ∧ Describes v s

namespace Fields

def slots : List (Slot Fields) := [
  ⟨List Text, "FilesToIgnore", filesToIgnore, fun s a => { s with filesToIgnore := some a }, list text⟩,
  ⟨List Text, "NameSpacesToRemove", namespacesToRemove,
    fun s a => { s with namespacesToRemove := some a }, list text⟩]

theorem fields_eq : fields = slots.map Slot.field :=
  rfl

theorem separate : Separate slots where
  nodup := by decide
  get_put := by simp [slots]
  get_put_of_ne := by simp [slots]
  ext := by
    rintro ⟨⟩ ⟨⟩ h
    simpa [slots] using h

theorem setFields_eq_ok_iff {room : Nat} {given : List (Quoted × Value)} {s : Fields} :
    setFields fields room ⟨none, none⟩ given = .ok s ↔ Legible slots given ∧
      Filled (list text room) none (valuesOf "FilesToIgnore" given) s.filesToIgnore ∧
      Filled (list text room) none (valuesOf "NameSpacesToRemove" given) s.namespacesToRemove := by
  rw [fields_eq, Reader.setFields_eq_ok_iff separate]
  simp [slots]

theorem setInOrder_eq_ok_iff {room : Nat} {fault : Option Fault} {vs : List Value} {s : Fields} :
    setInOrder room fault fields ⟨none, none⟩ vs = .ok s ↔ fault = none ∧
      Filled (list text room) none (vs.take 1) s.filesToIgnore ∧
      Filled (list text room) none (vs.drop 1) s.namespacesToRemove := by
  obtain ⟨files, names⟩ := s
  rw [fields_eq, slots, List.map_cons, List.map_cons, List.map_nil]
  match vs with
  | [] =>
    rw [setInOrder_nil, List.take_nil, List.drop_nil, filled_nil, filled_nil, mk.injEq, @eq_comm _ none files,
      @eq_comm _ none names]
  | [v] =>
    rw [setInOrder_cons, List.take_succ_cons, List.take_zero, List.drop_succ_cons, List.drop_zero,
      filled_nil, filled_cons]
    simp only [setInOrder_nil, filled_nil]
    constructor
    · rintro ⟨a, ha, hfault, ⟨⟩⟩
      exact ⟨hfault, ⟨trivial, a, ha, rfl⟩, rfl⟩
    · rintro ⟨hfault, ⟨-, a, ha, rfl⟩, rfl⟩
      exact ⟨a, ha, hfault, rfl⟩
  | [v, w] =>
    rw [setInOrder_cons, List.take_succ_cons, List.take_zero, List.drop_succ_cons, List.drop_zero,
      filled_cons, filled_cons]
    simp only [setInOrder_cons, setInOrder_nil, filled_nil]
    constructor
    · rintro ⟨a, ha, b, hb, hfault, ⟨⟩⟩
      exact ⟨hfault, ⟨trivial, a, ha, rfl⟩, trivial, b, hb, rfl⟩
    · rintro ⟨hfault, ⟨-, a, ha, rfl⟩, -, b, hb, rfl⟩
      exact ⟨a, ha, b, hb, hfault, rfl⟩
  | v :: w :: x :: vs =>
    refine iff_of_false ?_ ?_
    · simp only [setInOrder_cons, setInOrder_ne_ok, and_false, exists_false, not_false_iff]
    · rw [List.drop_succ_cons, List.drop_zero]
      rintro ⟨-, -, ⟨⟩⟩

theorem isWhole_of_list {room : Nat} {v : Value} {ts : List Text}
    (h : list text (room + 1) v = .ok ts) : v.IsWhole := by
  have hlist : SaysList SaysText v ts := by rwa [saysList_text_eq room]
  exact isWhole_of_saysList (fun _ _ => isWhole_of_saysText) hlist

theorem describes_object_iff {room : Nat} {given : List (Quoted × Value)} {s : Settings} :
    (∃ f, setFields fields (room + 1) ⟨none, none⟩ given = .ok f ∧
      Settings.mk (f.filesToIgnore.getD []) (f.namespacesToRemove.getD []) = s) ↔
    (Value.object given none).IsWhole ∧ Describes (.object given none) s := by
  constructor
  · rintro ⟨f, hset, rfl⟩
    have hitem : ∀ slot ∈ slots, ∀ v a, slot.item (room + 1) v = .ok a → v.IsWhole := by
      simp only [slots, List.forall_mem_cons]
      exact ⟨fun _ _ => isWhole_of_list, fun _ _ => isWhole_of_list, List.forall_mem_nil _⟩
    refine ⟨isWhole_of_setFields separate hitem hset, ?_⟩
    obtain ⟨hlegible, hfiles, hnames⟩ := setFields_eq_ok_iff.1 hset
    refine .object (fun entry hentry => ?_) ?_ ?_
    · obtain ⟨key, hkey, -⟩ := hlegible entry hentry
      exact ⟨key, hkey⟩
    · rw [saysList_text_eq room, saysField_iff]
      exact ⟨_, hfiles, rfl⟩
    · rw [saysList_text_eq room, saysField_iff]
      exact ⟨_, hnames, rfl⟩
  · rintro ⟨hwhole, hs⟩
    cases hs with
    | object hkeys hfiles hnames =>
      rw [saysList_text_eq room, saysField_iff] at hfiles hnames
      obtain ⟨files, hfiles, hs⟩ := hfiles
      obtain ⟨names, hnames, hs'⟩ := hnames
      refine ⟨⟨files, names⟩, setFields_eq_ok_iff.2 ⟨fun entry hentry => ?_, hfiles, hnames⟩, ?_⟩
      · obtain ⟨key, hkey⟩ := hkeys entry hentry
        exact ⟨key, hkey, fun _ => ((Value.isWhole_object.1 hwhole).1 entry hentry).2⟩
      · rw [hs, hs']

theorem describes_array_iff {room : Nat} {vs : List Value} {s : Settings} :
    (∃ f, setInOrder (room + 1) none fields ⟨none, none⟩ vs = .ok f ∧
      Settings.mk (f.filesToIgnore.getD []) (f.namespacesToRemove.getD []) = s) ↔
    (Value.array vs none).IsWhole ∧ Describes (.array vs none) s := by
  constructor
  · rintro ⟨f, hset, rfl⟩
    obtain ⟨-, hfiles, hnames⟩ := setInOrder_eq_ok_iff.1 hset
    have hwhole : ∀ v ∈ vs.take 1 ++ vs.drop 1, v.IsWhole :=
      List.forall_mem_append.2 ⟨isWhole_of_filled hfiles fun _ _ => isWhole_of_list,
        isWhole_of_filled hnames fun _ _ => isWhole_of_list⟩
    rw [List.take_append_drop] at hwhole
    refine ⟨Value.isWhole_array.2 ⟨hwhole, rfl⟩, .array ?_ ?_⟩
    · rw [saysList_text_eq room, saysField_iff]
      exact ⟨_, hfiles, rfl⟩
    · rw [saysList_text_eq room, saysField_iff]
      exact ⟨_, hnames, rfl⟩
  · rintro ⟨-, hs⟩
    cases hs with
    | array hfiles hnames =>
      rw [saysList_text_eq room, saysField_iff] at hfiles hnames
      obtain ⟨files, hfiles, hs⟩ := hfiles
      obtain ⟨names, hnames, hs'⟩ := hnames
      exact ⟨⟨files, names⟩, setInOrder_eq_ok_iff.2 ⟨rfl, hfiles, hnames⟩, by rw [hs, hs']⟩

end Fields

theorem reader_eq_ok_iff {room : Nat} {v : Value} {s : Settings} :
    reader (room + 2) v = .ok s ↔ v.IsWhole ∧ Describes v s := by
  cases v with
  | scalar | absent =>
    refine iff_of_false ?_ ?_
    · rintro ⟨⟩
    · rintro ⟨-, ⟨⟩⟩
  | object given fault =>
    rw [reader, record_object_eq_ok_iff]
    cases fault with
    | some fault =>
      refine iff_of_false ?_ ?_
      · rintro ⟨⟨⟩, -⟩
      · rintro ⟨-, ⟨⟩⟩
    | none => simp only [Except.ok.injEq, true_and, Fields.describes_object_iff]
  | array vs fault =>
    rw [reader, record_array_eq_ok_iff]
    cases fault with
    | some fault =>
      refine iff_of_false ?_ ?_
      · rintro ⟨f, hset, -⟩
        cases (Fields.setInOrder_eq_ok_iff.1 hset).1
      · rintro ⟨-, ⟨⟩⟩
    | none => simp only [Except.ok.injEq, Fields.describes_array_iff]

theorem ofJson_eq_ok_iff {source : Text} {s : Settings} : ofJson source = .ok s ↔ s.WrittenAs source := by
  rw [ofJson, run_eq_ok_iff fun v a h => (reader_eq_ok_iff.1 h).1]
  constructor
  · rintro ⟨v, hv, hread⟩
    exact ⟨v, hv, (reader_eq_ok_iff.1 hread).2⟩
  · rintro ⟨v, hv, hsaid⟩
    exact ⟨v, hv, reader_eq_ok_iff.2 ⟨hv.whole, hsaid⟩⟩

def listValue (items : List Text) : Value :=
  .array (items.map Value.ofText) none

theorem saysList_listValue (items : List Text) : SaysList SaysText (listValue items) items :=
  .intro (List.forall₂_map_left_iff.2 (List.forall₂_same.2 fun t _ => saysText_ofText t))

theorem isWhole_listValue (items : List Text) : (listValue items).IsWhole :=
  isWhole_of_saysList (fun _ _ => isWhole_of_saysText) (saysList_listValue items)

theorem spaced_listToJson (items : List Text) : Spaced (listValue items).tokens (listToJson items) := by
  cases items with
  | nil => exact (spaced_word .beginArray).append (spaced_word .endArray)
  | cons t ts =>
    have hopen : Spaced [.beginArray] "[\n    " := (spaced_word .beginArray).append (.nil rfl)
    have hcomma : Spaced [.comma] ",\n    " := (spaced_word .comma).append (.nil rfl)
    have hclose : Spaced [.endArray] "\n  ]" :=
      (((spaced_word .endArray).space rfl).space rfl).space rfl
    have hquoted : List.Forall₂ (fun v t => Spaced v.tokens t) ((t :: ts).map Value.ofText)
        ((t :: ts).map quote) := by
      rw [List.forall₂_map_left_iff, List.forall₂_map_right_iff]
      exact List.forall₂_same.2 fun t _ => spaced_quote t
    have hlist := (hopen.append (spaced_joinWith hcomma hquoted)).append hclose
    rwa [List.append_assoc] at hlist

def toValue (s : Settings) : Value :=
  .object [(.ofText "FilesToIgnore", listValue s.filesToIgnore),
    (.ofText "NameSpacesToRemove", listValue s.namespacesToRemove)] none

theorem describes_toValue (s : Settings) : Describes s.toValue s :=
  .object (by simp [Quoted.read_ofText]) (.given (saysList_listValue s.filesToIgnore))
    (.given (saysList_listValue s.namespacesToRemove))

theorem isWhole_toValue (s : Settings) : s.toValue.IsWhole := by
  rw [toValue, Value.isWhole_object]
  simp only [List.forall_mem_cons]
  exact ⟨⟨⟨rfl, isWhole_listValue _⟩, ⟨rfl, isWhole_listValue _⟩, List.forall_mem_nil _⟩, trivial⟩

theorem spaced_line (key : Text) :
    Spaced [.scalar (.text (.ofText key)), .colon] ("\n  " ++ (quote key ++ ": ")) :=
  .gap rfl ((spaced_quote key).append ((spaced_word .colon).append (.nil rfl)))

theorem spaced_toJson (s : Settings) : Spaced s.toValue.tokens s.toJson := by
  have hopen : Spaced _ "\x7b\n  \"FilesToIgnore\": " :=
    (spaced_word .beginObject).append (spaced_line "FilesToIgnore")
  have hnames : Spaced _ ",\n  \"NameSpacesToRemove\": " :=
    (spaced_word .comma).append (spaced_line "NameSpacesToRemove")
  have hclose : Spaced [.endObject] "\n\x7d" := (spaced_word .endObject).space rfl
  have hall := (((hopen.append (spaced_listToJson s.filesToIgnore)).append hnames).append
    (spaced_listToJson s.namespacesToRemove)).append hclose
  unfold toJson
  rw [toValue]
  simpa only [Value.tokens, Value.fieldTokens, List.tail_cons, List.cons_append, List.nil_append,
    List.append_assoc] using hall

theorem writtenAs_toJson (s : Settings) : s.WrittenAs s.toJson :=
  ⟨s.toValue, ⟨isWhole_toValue s, spaced_toJson s⟩, describes_toValue s⟩

end Settings

namespace FileSystem

variable {files : FileSystem} {path : Path} {around : Place} {name t : Text}

theorem Opens.readText_set (h : files.Opens path around name) (t : Text) :
    (files.set (name :: around) (.file (.text t))).readText path = .ok t :=
  h.readText_of_get? (h.keeps_set _) (get?_set_self files (List.cons_ne_nil name around) _)

theorem withSettings_of_readText (h : files.readText path = .ok t) : files.withSettings path = files := by
  obtain ⟨place, hlocate, hget⟩ := readText_eq_ok_iff.1 h
  refine if_pos ?_
  rw [find, hlocate]
  exact Option.isSome_of_mem hget

theorem Opens.withSettings_eq (h : files.Opens path around name)
    (hnone : files.get? (name :: around) = none) :
    files.withSettings path = files.set (name :: around) (.file (.text Settings.empty.toJson)) := by
  rw [withSettings, h.find_eq, hnone, h.write_eq]
  rfl

theorem withSettings_withSettings (files : FileSystem) (path : Path) :
    (files.withSettings path).withSettings path = files.withSettings path := by
  rcases files.withSettings_cases path with heq | ⟨around, name, hopens, -, heq⟩
  · rw [heq, heq]
  · rw [heq, withSettings_of_readText (hopens.readText_set _)]

theorem inFile_of_writtenAs {s : Settings} (h : files.readText path = .ok t) (hs : s.WrittenAs t) :
    Settings.inFile files path = s := by
  rw [Settings.inFile, h]
  dsimp only
  rw [Settings.ofJson_eq_ok_iff.2 hs]
  rfl

theorem inFile_of_not_writtenAs (h : files.readText path = .ok t)
    (hs : ∀ s : Settings, ¬ s.WrittenAs t) : Settings.inFile files path = .empty := by
  rw [Settings.inFile, h]
  dsimp only
  cases hread : Settings.ofJson t with
  | ok s => exact absurd (Settings.ofJson_eq_ok_iff.1 hread) (hs s)
  | error fault => rfl

end FileSystem

namespace Settings

open Command

theorem load_run (path : Path) (env : Environment) :
    (load path : StateM Environment (Except LoadError Settings)) env =
      (match env.files.readText path with
        | .error cause => .error (.file cause)
        | .ok source => (ofJson source).mapError .json, env) := by
  rw [load, bind_run, readText_run]
  cases env.files.readText path <;> rfl

theorem load_run_of_writtenAs {path : Path} {env : Environment} {t : Text} {s : Settings}
    (h : env.files.readText path = .ok t) (hs : s.WrittenAs t) :
    (load path : StateM Environment (Except LoadError Settings)) env = (.ok s, env) := by
  rw [load_run, h]
  dsimp only
  rw [ofJson_eq_ok_iff.2 hs]
  rfl

theorem save_run {path : Path} {env : Environment} {around : Place} {name : Text}
    (h : env.files.Opens path around name) (s : Settings) :
    (s.save path : StateM Environment (Except FileError Unit)) env =
      (.ok (), { env with files := env.files.set (name :: around) (.file (.text s.toJson)) }) := by
  rw [save, writeText_run, h.write_eq]

theorem loadOrCreate_run_of_readText {path : Path} {env : Environment} {t : Text}
    (h : env.files.readText path = .ok t) :
    ∃ ws, (loadOrCreate path : StateM Environment Settings) env =
      (inFile env.files path, env.warned ws) := by
  obtain ⟨ws, hrun⟩ := loadOrCreate_run path env
  rw [FileSystem.withSettings_of_readText h] at hrun
  exact ⟨ws, hrun⟩

theorem loadOrCreate_run_of_writtenAs {path : Path} {env : Environment} {t : Text} {s : Settings}
    (h : env.files.readText path = .ok t) (hs : s.WrittenAs t) :
    ∃ ws, (loadOrCreate path : StateM Environment Settings) env = (s, env.warned ws) := by
  obtain ⟨ws, hrun⟩ := loadOrCreate_run_of_readText h
  rw [FileSystem.inFile_of_writtenAs h hs] at hrun
  exact ⟨ws, hrun⟩

theorem loadOrCreate_again (path : Path) (env : Environment) :
    let once := (loadOrCreate path : StateM Environment Settings) env
    ∃ ws, (loadOrCreate path : StateM Environment Settings) once.2 = (once.1, once.2.warned ws) := by
  intro once
  obtain ⟨ws, honce⟩ := loadOrCreate_run path env
  obtain ⟨more, hagain⟩ := loadOrCreate_run path once.2
  have hfiles : once.2.files = env.files.withSettings path := congrArg (·.2.files) honce
  rw [hfiles, FileSystem.withSettings_withSettings, ← hfiles] at hagain
  refine ⟨more, hagain.trans (Prod.ext ?_ rfl)⟩
  rw [hfiles]
  exact (congrArg Prod.fst honce).symm

/-- A settings file that is there is left alone, whatever text it has: it gives the settings that the
text is written for, and none if it is no such text. Where there is none one is made, at a path where a
file can be, and it gives none either. Asking again gives the same and makes nothing. Settings that
are saved are what is loaded from then on. -/
theorem settings_stay (path : Path) (env : Environment) :
    let once := (loadOrCreate path : StateM Environment Settings) env
    (∀ t, env.files.readText path = .ok t → (∃ ws, once.2 = env.warned ws) ∧
      (∀ s : Settings, s.WrittenAs t → once.1 = s) ∧
      ((∀ s : Settings, ¬ s.WrittenAs t) → once.1 = empty)) ∧
    (∀ around name, env.files.Opens path around name → env.files.get? (name :: around) = none →
      once.1 = empty ∧
      (∃ t, once.2.files = env.files.set (name :: around) (.file (.text t))) ∧
      (load path : StateM Environment (Except LoadError Settings)) once.2 = (.ok empty, once.2)) ∧
    (∃ ws, (loadOrCreate path : StateM Environment Settings) once.2 = (once.1, once.2.warned ws)) ∧
    ∀ (s : Settings) around name, env.files.Opens path around name →
      let saved := (s.save path : StateM Environment (Except FileError Unit)) env
      saved.1 = .ok () ∧
      (load path : StateM Environment (Except LoadError Settings)) saved.2 = (.ok s, saved.2) ∧
      ∃ ws, (loadOrCreate path : StateM Environment Settings) saved.2 = (s, saved.2.warned ws) := by
  intro once
  refine ⟨fun t ht => ?_, fun around name hopens hnone => ?_, loadOrCreate_again path env,
    fun s around name hopens => ?_⟩
  · obtain ⟨ws, honce⟩ := loadOrCreate_run_of_readText ht
    refine ⟨⟨ws, congrArg Prod.snd honce⟩, fun s hs => ?_, fun hs => ?_⟩
    · exact (congrArg Prod.fst honce).trans (FileSystem.inFile_of_writtenAs ht hs)
    · exact (congrArg Prod.fst honce).trans (FileSystem.inFile_of_not_writtenAs ht hs)
  · obtain ⟨ws, honce⟩ := loadOrCreate_run path env
    rw [hopens.withSettings_eq hnone] at honce
    have hfiles : once.2.files =
        env.files.set (name :: around) (.file (.text empty.toJson)) := congrArg (·.2.files) honce
    have hread : once.2.files.readText path = .ok empty.toJson := by
      rw [hfiles]
      exact hopens.readText_set empty.toJson
    refine ⟨?_, ⟨_, hfiles⟩, load_run_of_writtenAs hread (writtenAs_toJson empty)⟩
    exact (congrArg Prod.fst honce).trans
      (FileSystem.inFile_of_writtenAs (hopens.readText_set _) (writtenAs_toJson empty))
  · intro saved
    have hsaved : saved = _ := save_run hopens s
    have hread : saved.2.files.readText path = .ok s.toJson := by
      rw [hsaved]
      exact hopens.readText_set s.toJson
    exact ⟨congrArg Prod.fst hsaved, load_run_of_writtenAs hread (writtenAs_toJson s),
      loadOrCreate_run_of_writtenAs hread (writtenAs_toJson s)⟩

theorem settings_stay_in_directory :
    let path : Path := "settings.json"
    let listed : Text := "\x7b\"FilesToIgnore\":[\"Skip.xml\"],\"x\":null\x7d"
    let kept (entries : List (Place × Entry)) : Environment := .ofFiles ⟨[], entries⟩ (.text [])
    let found (t : Text) : Environment := kept [(["settings.json"], .file (.text t))]
    let run (env : Environment) := (loadOrCreate path : StateM Environment Settings) env
    (∃ ws, run (found listed) = (⟨["Skip.xml"], []⟩, (found listed).warned ws)) ∧
      (run (found "\x7b not json")).1 = empty ∧ (run (kept [])).1 = empty ∧
      let saved := (save ⟨["Skip.xml"], ["A"]⟩ path : StateM Environment (Except FileError Unit)) (kept [])
      (run saved.2).1 = ⟨["Skip.xml"], ["A"]⟩ := by
  intro path listed kept found run
  have hopens : (kept []).files.Opens path [] "settings.json" := {
    checked := rfl
    split := ⟨[], by decide, rfl⟩
    blank := List.forall_mem_nil _
    directory := rfl
    isName := by decide
    short := by decide
    free := by decide }
  have hlisted : (⟨["Skip.xml"], []⟩ : Settings).WrittenAs listed := by
    let v : Value := .object
      [(.ofText "FilesToIgnore", listValue ["Skip.xml"]), (.ofText "x", .scalar .null)] none
    have hlist : Spaced (listValue ["Skip.xml"]).tokens "[\"Skip.xml\"]" :=
      (spaced_word .beginArray).append ((spaced_quote "Skip.xml").append (spaced_word .endArray))
    have hspaced : Spaced v.tokens listed :=
      (spaced_key .beginObject "FilesToIgnore" rfl).append (hlist.append
        ((spaced_key .comma "x" rfl).append ((spaced_word .null).append (spaced_word .endObject))))
    have hsaid : Describes v ⟨["Skip.xml"], []⟩ :=
      .object (by simp [Quoted.read_ofText]) (.given (saysList_listValue _)) .leftOut
    exact ⟨v, ⟨rfl, hspaced⟩, hsaid⟩
  have hbroken (s : Settings) : ¬ s.WrittenAs "\x7b not json" := by
    have hfault : ofJson "\x7b not json" = .error .notJson := by cbv
    rw [← ofJson_eq_ok_iff, hfault]
    rintro ⟨⟩
  have hread (t : Text) : (found t).files.readText path = .ok t := by
    rfl
  have hfound := (settings_stay path (found listed)).1 listed (hread listed)
  have hother := (settings_stay path (found "\x7b not json")).1 _ (hread _)
  have hmissing := (settings_stay path (kept [])).2.1 [] "settings.json" hopens rfl
  have hsaved := (settings_stay path (kept [])).2.2.2 ⟨["Skip.xml"], ["A"]⟩ [] "settings.json" hopens
  obtain ⟨ws, hkept⟩ := hfound.1
  obtain ⟨more, hloaded⟩ := hsaved.2.2
  exact ⟨⟨ws, Prod.ext (hfound.2.1 _ hlisted) hkept⟩, hother.2.2 hbroken, hmissing.1,
    congrArg Prod.fst hloaded⟩

end Settings

end Docmark
