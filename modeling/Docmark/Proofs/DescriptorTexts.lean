import Docmark.Metadata.TypeDescriptor
import Docmark.Proofs.Records

/-!
Types of metadata as JSON says them: their own compact text, and every text with the same fields in
whatever order, with defaults left out and with other keys between them.
-/

namespace Docmark.TypeDescriptor

open Json Reader

@[elab_as_elim, induction_eliminator]
theorem induction {motive : TypeDescriptor → Prop}
    (mk : ∀ name namespaceName assembly arguments, (∀ d ∈ arguments, motive d) →
      motive ⟨name, namespaceName, assembly, arguments⟩) (d : TypeDescriptor) : motive d := by
  apply @TypeDescriptor.rec motive (fun ds => ∀ d ∈ ds, motive d)
  · exact mk
  · exact List.forall_mem_nil _
  · exact fun d ds hd hds => List.forall_mem_cons.2 ⟨hd, hds⟩

/-- An object that says what the descriptor is. Every key is a text; the name is given, and each of the
other fields may be left out where it has its default. -/
inductive Describes : Value → TypeDescriptor → Prop
  | intro {given : List (Quoted × Value)} {d : TypeDescriptor} :
    (∀ entry ∈ given, ∃ key, entry.1.read = .ok key) →
    (∃ v, valuesOf "name" given = [v] ∧ SaysText v d.name) →
    SaysField SaysText [] (valuesOf "namespace" given) d.namespaceName →
    SaysField (SaysOptional SaysText) none (valuesOf "assembly" given) d.assembly →
    SaysField (SaysList Describes) [] (valuesOf "arguments" given) d.arguments →
    Describes (.object given none) d

mutual

def levels : TypeDescriptor → Nat
  | ⟨_, _, _, arguments⟩ => argumentLevels arguments + 1

def argumentLevels : List TypeDescriptor → Nat
  | [] => 0
  | d :: ds => max (levels d) (argumentLevels ds)

end

mutual

def nesting : Value → Nat
  | .array items _ => itemNesting items + 1
  | .object given _ => fieldNesting given + 1
  | _ => 0

def itemNesting : List Value → Nat
  | [] => 0
  | v :: items => max (nesting v) (itemNesting items)

def fieldNesting : List (Quoted × Value) → Nat
  | [] => 0
  | (key, v) :: given =>
    if key.read.toOption = some ("arguments" : Text) then max (nesting v) (fieldNesting given)
    else fieldNesting given

end

theorem fieldNesting_eq (given : List (Quoted × Value)) :
    fieldNesting given = itemNesting (valuesOf "arguments" given) := by
  induction given with
  | nil => rfl
  | cons entry given ih =>
    obtain ⟨key, v⟩ := entry
    rw [fieldNesting, valuesOf_cons, ih]
    split
    · rw [itemNesting]
    · rfl

theorem Describes.perm {given others : List (Quoted × Value)} {d : TypeDescriptor}
    (h : Describes (.object given none) d) (hp : given.Perm others) :
    Describes (.object others none) d := by
  obtain ⟨hkeys, ⟨v, hname, hv⟩, hnamespace, hassembly, harguments⟩ := h
  have hone := valuesOf_perm "name" hp
  rw [hname, List.singleton_perm] at hone
  exact .intro (fun entry hentry => hkeys entry (hp.mem_iff.2 hentry)) ⟨v, hone.symm, hv⟩
    (hnamespace.perm (valuesOf_perm _ hp)) (hassembly.perm (valuesOf_perm _ hp))
    (harguments.perm (valuesOf_perm _ hp))

theorem Describes.cons {given : List (Quoted × Value)} {d : TypeDescriptor} {entry : Quoted × Value}
    {key : Text} (h : Describes (.object given none) d) (hkey : entry.1.read = .ok key)
    (hunknown : key ∉ (["name", "namespace", "assembly", "arguments"] : List Text)) :
    Describes (.object (entry :: given) none) d := by
  obtain ⟨hkeys, hname, hnamespace, hassembly, harguments⟩ := h
  have hvalues (field : Text) (hfield : field ∈ (["name", "namespace", "assembly", "arguments"] : List Text)) :
      valuesOf field (entry :: given) = valuesOf field given :=
    valuesOf_cons_of_ne hkey (fun heq => hunknown (heq ▸ hfield)) given
  refine .intro (List.forall_mem_cons.2 ⟨⟨key, hkey⟩, hkeys⟩) ?_ ?_ ?_ ?_
  · rwa [hvalues _ (by decide)]
  · rwa [hvalues _ (by decide)]
  · rwa [hvalues _ (by decide)]
  · rwa [hvalues _ (by decide)]

namespace Fields

def slots (argument : Reader TypeDescriptor) : List (Slot Fields) := [
  ⟨Text, "name", name, fun s a => { s with name := some a }, text⟩,
  ⟨Text, "namespace", namespaceName, fun s a => { s with namespaceName := some a }, text⟩,
  ⟨Option Text, "assembly", assembly, fun s a => { s with assembly := some a }, optional text⟩,
  ⟨List TypeDescriptor, "arguments", arguments, fun s a => { s with arguments := some a },
    list argument⟩]

theorem all_eq (argument : Reader TypeDescriptor) : all argument = (slots argument).map Slot.field :=
  rfl

theorem separate (argument : Reader TypeDescriptor) : Separate (slots argument) where
  nodup := by
    have hkeys : (["name", "namespace", "assembly", "arguments"] : List Text).Nodup := by decide
    exact hkeys
  get_put := by simp [slots]
  get_put_of_ne := by simp [slots]
  ext := by
    rintro ⟨⟩ ⟨⟩ h
    simpa [slots] using h

theorem filled_iff {argument : Reader TypeDescriptor} {room : Nat} {given : List (Quoted × Value)}
    {s : Fields} : (∀ slot ∈ slots argument,
      Filled (slot.item room) (slot.get start) (valuesOf slot.key given) (slot.get s)) ↔
    Filled (text room) none (valuesOf "name" given) s.name ∧
      Filled (text room) none (valuesOf "namespace" given) s.namespaceName ∧
      Filled (optional text room) none (valuesOf "assembly" given) s.assembly ∧
      Filled (list argument room) none (valuesOf "arguments" given) s.arguments := by
  simp [slots, start]

theorem finish_eq_ok_iff {s : Fields} {d : TypeDescriptor} : s.finish = .ok d ↔
    s.name = some d.name ∧ s.namespaceName.getD [] = d.namespaceName ∧
      s.assembly.getD none = d.assembly ∧ s.arguments.getD [] = d.arguments := by
  obtain ⟨name, namespaceName, assembly, arguments⟩ := d
  cases hname : s.name with
  | none => simp [finish, hname, required, bind, Except.bind]
  | some found => simp [finish, hname, required, bind, Except.bind, pure, Except.pure]

theorem record_eq_ok_iff {argument : Reader TypeDescriptor} {room : Nat} {given : List (Quoted × Value)}
    {d : TypeDescriptor} : record (all argument) start finish (room + 1) (.object given none) = .ok d ↔
      Legible (slots argument) given ∧
      (∃ v, valuesOf "name" given = [v] ∧ SaysText v d.name) ∧
      SaysField SaysText [] (valuesOf "namespace" given) d.namespaceName ∧
      SaysField (SaysOptional SaysText) none (valuesOf "assembly" given) d.assembly ∧
      SaysField (fun v ds => list argument room v = .ok ds) [] (valuesOf "arguments" given)
        d.arguments := by
  rw [record_object_eq_ok_iff, all_eq, saysOptional_text_eq room, saysText_eq room]
  simp only [setFields_eq_ok_iff (separate argument), finish_eq_ok_iff, filled_iff, saysField_iff]
  constructor
  · rintro ⟨-, s, ⟨hlegible, hname, hnamespace, hassembly, harguments⟩, hn, hs, ha, hd⟩
    rw [hn, filled_some_iff] at hname
    exact ⟨hlegible, hname, ⟨_, hnamespace, hs⟩, ⟨_, hassembly, ha⟩, ⟨_, harguments, hd⟩⟩
  · rintro ⟨hlegible, hname, ⟨_, hnamespace, hs⟩, ⟨_, hassembly, ha⟩, ⟨_, harguments, hd⟩⟩
    exact ⟨trivial, ⟨some d.name, _, _, _⟩,
      ⟨hlegible, filled_some_iff.2 hname, hnamespace, hassembly, harguments⟩, rfl, hs, ha, hd⟩

theorem record_eq_ok_iff_of_describes {argument : Reader TypeDescriptor} {room : Nat}
    {given : List (Quoted × Value)} {d : TypeDescriptor} (hwhole : (Value.object given none).IsWhole)
    (h : Describes (.object given none) d) :
    record (all argument) start finish (room + 1) (.object given none) = .ok d ↔
      SaysField (fun v ds => list argument room v = .ok ds) [] (valuesOf "arguments" given)
        d.arguments := by
  obtain ⟨hkeys, hname, hnamespace, hassembly, -⟩ := h
  have hlegible : Legible (slots argument) given := fun entry hentry => by
    obtain ⟨key, hkey⟩ := hkeys entry hentry
    exact ⟨key, hkey, fun _ => ((Value.isWhole_object.1 hwhole).1 entry hentry).2⟩
  rw [record_eq_ok_iff]
  constructor
  · exact fun hread => hread.2.2.2.2
  · exact fun harguments => ⟨hlegible, hname, hnamespace, hassembly, harguments⟩

end Fields

theorem reader_zero_ne_ok (given : List (Quoted × Value)) (d : TypeDescriptor) :
    reader 0 (.object given none) ≠ .ok d := by
  rw [reader]
  · exact record_zero_ne_ok d
  · exact nofun

theorem reader_succ_eq_ok_iff {given : List (Quoted × Value)} {d : TypeDescriptor} {room : Nat}
    (hwhole : (Value.object given none).IsWhole) (h : Describes (.object given none) d) :
    reader (room + 1) (.object given none) = .ok d ↔
      SaysField (fun v ds => 0 < room ∧ SaysList (fun v d => reader (room - 1) v = .ok d) v ds) []
        (valuesOf "arguments" given) d.arguments := by
  cases room with
  | zero =>
    rw [reader, Fields.record_eq_ok_iff_of_describes hwhole h]
    · simp only [list_zero_ne_ok, Nat.lt_irrefl, false_and]
    · exact nofun
  | succ room =>
    rw [reader, Fields.record_eq_ok_iff_of_describes hwhole h]
    simp only [list_eq_ok_iff, Nat.succ_pos, true_and, Nat.add_sub_cancel]

theorem forall₂_reader_iff {items : List Value} {ds : List TypeDescriptor} {room : Nat}
    (h : List.Forall₂ Describes items ds) (hwhole : ∀ v ∈ items, v.IsWhole)
    (hreader : ∀ d ∈ ds, ∀ v, v.IsWhole → Describes v d → (reader room v = .ok d ↔ nesting v ≤ room)) :
    List.Forall₂ (fun v d => reader room v = .ok d) items ds ↔ itemNesting items ≤ room := by
  induction h with
  | nil => simp [itemNesting]
  | cons hd _ ih =>
    rw [List.forall_mem_cons] at hwhole hreader
    rw [List.forall₂_cons, itemNesting, Nat.max_le, hreader.1 _ hwhole.1 hd, ih hwhole.2 hreader.2]

theorem reader_eq_ok_iff {v : Value} {d : TypeDescriptor} {room : Nat} (hwhole : v.IsWhole)
    (h : Describes v d) : reader room v = .ok d ↔ nesting v ≤ room := by
  induction d generalizing v room with
  | mk name namespaceName assembly arguments ih =>
    cases h with
    | @intro given _ hkeys hname hnamespace hassembly harguments =>
      have hdescribes := Describes.intro hkeys hname hnamespace hassembly harguments
      rw [nesting, fieldNesting_eq]
      cases room with
      | zero => exact iff_of_false (reader_zero_ne_ok _ _) (Nat.not_succ_le_zero _)
      | succ room =>
        rw [reader_succ_eq_ok_iff hwhole hdescribes, Nat.succ_le_succ_iff]
        rcases harguments.cases with ⟨hvalues, hnone⟩ | ⟨v, hvalues, ⟨hitems⟩⟩
        · rw [hvalues, hnone]
          exact iff_of_true .leftOut (Nat.zero_le room)
        · -- An argument stands in two more containers, the object and the array of the arguments.
          have harray := isWhole_of_mem_valuesOf hwhole _ (hvalues ▸ List.mem_singleton_self _)
          have hread : List.Forall₂ (fun v d => reader (room - 1) v = .ok d) _ arguments ↔ _ :=
            forall₂_reader_iff hitems (Value.isWhole_array.1 harray).1
              fun d hd v hv hsaid => ih d hd hv hsaid
          rw [hvalues, saysField_singleton_iff, saysList_array_iff, hread, itemNesting, nesting, itemNesting]
          omega

mutual

def toValue : TypeDescriptor → Value
  | ⟨name, namespaceName, assembly, arguments⟩ => .object [
      (.ofText "name", .ofText name),
      (.ofText "namespace", .ofText namespaceName),
      (.ofText "assembly", (assembly.map Value.ofText).getD (.scalar .null)),
      (.ofText "arguments", .array (argumentValues arguments) none)] none

def argumentValues : List TypeDescriptor → List Value
  | [] => []
  | d :: ds => toValue d :: argumentValues ds

end

theorem argumentValues_eq_map (ds : List TypeDescriptor) : argumentValues ds = ds.map toValue := by
  induction ds with
  | nil => rfl
  | cons d ds ih => rw [argumentValues, ih, List.map_cons]

theorem argumentsToJson_eq (ds : List TypeDescriptor) :
    argumentsToJson ds = Text.joinWith "," (ds.map toJson) := by
  induction ds with
  | nil => simp only [argumentsToJson, List.map_nil, Text.joinWith_nil]
  | cons d ds ih =>
    cases ds with
    | nil => simp only [argumentsToJson, List.map_cons, List.map_nil, Text.joinWith_singleton]
    | cons e ds =>
      have hcons : argumentsToJson (d :: e :: ds) = d.toJson ++ "," ++ argumentsToJson (e :: ds) := by
        rw [argumentsToJson]
        exact nofun
      rw [hcons, ih, List.map_cons, List.map_cons, List.map_cons, Text.joinWith_cons_cons]

theorem valuesOf_toValue (name namespaceName assembly arguments : Value) :
    let given : List (Quoted × Value) := [(.ofText "name", name), (.ofText "namespace", namespaceName),
      (.ofText "assembly", assembly), (.ofText "arguments", arguments)]
    valuesOf "name" given = [name] ∧ valuesOf "namespace" given = [namespaceName] ∧
      valuesOf "assembly" given = [assembly] ∧ valuesOf "arguments" given = [arguments] := by
  refine ⟨?_, ?_, ?_, ?_⟩
  · rfl
  · rfl
  · rfl
  · rfl

theorem describes_toValue (d : TypeDescriptor) : Describes d.toValue d := by
  induction d with
  | mk name namespaceName assembly arguments ih =>
    rw [toValue]
    obtain ⟨hname, hnamespace, hassembly, harguments⟩ := valuesOf_toValue (.ofText name)
      (.ofText namespaceName) ((assembly.map Value.ofText).getD (.scalar .null))
      (.array (argumentValues arguments) none)
    refine .intro ?_ ⟨_, hname, saysText_ofText name⟩ ?_ ?_ ?_
    · simp [Quoted.read_ofText]
    · rw [hnamespace]
      exact .given (saysText_ofText namespaceName)
    · rw [hassembly]
      cases assembly with
      | none => exact .given .none
      | some a => exact .given (.some (saysText_ofText a))
    · rw [harguments, argumentValues_eq_map]
      exact .given (.intro (List.forall₂_map_left_iff.2 (List.forall₂_same.2 ih)))

theorem isWhole_toValue (d : TypeDescriptor) : d.toValue.IsWhole := by
  induction d with
  | mk name namespaceName assembly arguments ih =>
    have hassembly : ((assembly.map Value.ofText).getD (.scalar .null)).IsWhole := by
      cases assembly <;> rfl
    have harguments : (Value.array (argumentValues arguments) none).IsWhole := by
      refine Value.isWhole_array.2 ⟨?_, rfl⟩
      rwa [argumentValues_eq_map, List.forall_mem_map]
    rw [toValue, Value.isWhole_object]
    simp only [List.forall_mem_cons]
    exact ⟨⟨⟨rfl, rfl⟩, ⟨rfl, rfl⟩, ⟨rfl, hassembly⟩, ⟨rfl, harguments⟩, List.forall_mem_nil _⟩, trivial⟩

theorem nesting_toValue (d : TypeDescriptor) : nesting d.toValue = 2 * d.levels := by
  induction d with
  | mk name namespaceName assembly arguments ih =>
    have harguments : itemNesting (argumentValues arguments) = 2 * argumentLevels arguments := by
      induction arguments with
      | nil => rfl
      | cons d ds ihs =>
        rw [List.forall_mem_cons] at ih
        rw [argumentValues, itemNesting, argumentLevels, ih.1, ihs ih.2, Nat.mul_max_mul_left]
    rw [toValue, nesting, fieldNesting_eq, (valuesOf_toValue _ _ _ _).2.2.2, itemNesting, itemNesting, nesting,
      harguments, levels]
    omega

theorem toJson_eq (name namespaceName : Text) (assembly : Option Text)
    (arguments : List TypeDescriptor) : toJson ⟨name, namespaceName, assembly, arguments⟩ =
      "\x7b\"name\":" ++ (quote name ++ (",\"namespace\":" ++ (quote namespaceName ++
        (",\"assembly\":" ++ ((assembly.map quote).getD "null" ++
          (",\"arguments\":[" ++ (argumentsToJson arguments ++ "]\x7d"))))))) := by
  unfold toJson
  cases assembly <;> simp only [List.append_assoc, Option.map_none, Option.map_some, Option.getD_none,
    Option.getD_some]

theorem spaced_toJson (d : TypeDescriptor) : Spaced d.toValue.tokens d.toJson := by
  induction d with
  | mk name namespaceName assembly arguments ih =>
    have hopen : Spaced _ "\x7b\"name\":" := spaced_key .beginObject "name" rfl
    have hnamespace : Spaced _ ",\"namespace\":" := spaced_key .comma "namespace" rfl
    have hassembly : Spaced _ ",\"assembly\":" := spaced_key .comma "assembly" rfl
    have hvalue : Spaced ((assembly.map Value.ofText).getD (.scalar .null)).tokens
        ((assembly.map quote).getD "null") := by
      cases assembly with
      | none => exact spaced_word .null
      | some a => exact spaced_quote a
    have harguments : Spaced _ (",\"arguments\":[" : Text) :=
      (spaced_key .comma "arguments" rfl).append (spaced_word .beginArray)
    have hitems : Spaced (Value.itemTokens (argumentValues arguments)).tail (argumentsToJson arguments) := by
      rw [argumentsToJson_eq, argumentValues_eq_map]
      refine spaced_joinWith (spaced_word .comma) ?_
      rw [List.forall₂_map_left_iff, List.forall₂_map_right_iff]
      exact List.forall₂_same.2 ih
    have hclose : Spaced [.endArray, .endObject] "]\x7d" :=
      (spaced_word .endArray).append (spaced_word .endObject)
    have hall := hopen.append ((spaced_quote name).append (hnamespace.append ((spaced_quote
      namespaceName).append (hassembly.append (hvalue.append (harguments.append (hitems.append hclose)))))))
    rw [toJson_eq, toValue]
    simpa only [Value.tokens, Value.fieldTokens, Value.ofText, List.tail_cons, List.cons_append,
      List.nil_append, List.append_assoc] using hall

theorem run_toJson_eq_ok_iff (d : TypeDescriptor) : run reader d.toJson = .ok d ↔ d.levels ≤ 63 := by
  rw [run_of_writtenAs ⟨isWhole_toValue d, spaced_toJson d⟩,
    reader_eq_ok_iff (isWhole_toValue d) (describes_toValue d), nesting_toValue, maxDepth]
  omega

theorem itemNesting_le_of_describes {items : List Value} {ds : List TypeDescriptor}
    (h : List.Forall₂ Describes items ds)
    (hds : ∀ d ∈ ds, ∀ {v}, Describes v d → nesting v ≤ 2 * d.levels) :
    itemNesting items ≤ 2 * argumentLevels ds := by
  induction h with
  | nil => exact Nat.zero_le _
  | cons hd _ ih =>
    rw [List.forall_mem_cons] at hds
    have hfirst := hds.1 hd
    have hmore := ih hds.2
    rw [itemNesting, argumentLevels]
    omega

theorem nesting_le_of_describes {v : Value} {d : TypeDescriptor} (h : Describes v d) :
    nesting v ≤ 2 * d.levels := by
  induction d generalizing v with
  | mk name namespaceName assembly arguments ih =>
    cases h with
    | @intro given _ _ _ _ _ harguments =>
      rw [nesting, fieldNesting_eq, levels]
      rcases harguments.cases with ⟨hvalues, -⟩ | ⟨v, hvalues, ⟨hitems⟩⟩
      · rw [hvalues, itemNesting]
        omega
      · have hnesting : _ ≤ 2 * argumentLevels arguments := itemNesting_le_of_describes hitems ih
        rw [hvalues, itemNesting, itemNesting, nesting]
        omega

/-- A descriptor as compact as it is written is read back if it is at most 63 levels deep, since a
level takes an object and an array. Any other text that says the descriptor, with its fields in whatever
order, defaults left out and further keys between them, is read as it too; again the containers that the
descriptor takes may be nested 127 deep, and there are at most two for a level. -/
theorem texts_read_back_iff (d : TypeDescriptor) :
    (run reader d.toJson = .ok d ↔ d.levels ≤ 63) ∧
      ∀ v, Describes v d → nesting v ≤ 2 * d.levels ∧
        ∀ source, v.WrittenAs source → (run reader source = .ok d ↔ nesting v ≤ 127) := by
  refine ⟨run_toJson_eq_ok_iff d, fun v hv => ⟨nesting_le_of_describes hv, fun source hsource => ?_⟩⟩
  rw [run_of_writtenAs hsource, reader_eq_ok_iff hsource.whole hv, maxDepth]

theorem texts_read_back_iff_reordered :
    let argument : Value := .object
      [(.ofText "x", .scalar (.bool true)), (.ofText "name", .ofText "B")] none
    let v : Value := .object
      [(.ofText "arguments", .array [argument] none), (.ofText "name", .ofText "A")] none
    let d : TypeDescriptor := ⟨"A", [], none, [⟨"B", [], none, []⟩]⟩
    let source : Text := "\x7b\"arguments\": [\x7b\"x\":true,\"name\":\"B\"\x7d],\"name\":\"A\"\x7d"
    Describes v d ∧ v.WrittenAs source ∧ run reader source = .ok d := by
  intro argument v d source
  have hname : Describes (.object [(.ofText "name", .ofText "B")] none) ⟨"B", [], none, []⟩ :=
    .intro (by simp [Quoted.read_ofText]) ⟨_, rfl, saysText_ofText "B"⟩ .leftOut .leftOut .leftOut
  have hargument : Describes argument ⟨"B", [], none, []⟩ :=
    hname.cons (Quoted.read_ofText "x") (by decide)
  have hordered : Describes (.object [(.ofText "name", .ofText "A"),
      (.ofText "arguments", .array [argument] none)] none) d :=
    .intro (by simp [Quoted.read_ofText]) ⟨_, rfl, saysText_ofText "A"⟩ .leftOut .leftOut
      (.given (.intro (.cons hargument .nil)))
  have hv : Describes v d := hordered.perm (.swap _ _ [])
  have hspaced : Spaced argument.tokens "\x7b\"x\":true,\"name\":\"B\"\x7d" :=
    (spaced_key .beginObject "x" rfl).append ((spaced_word .yes).append
      ((spaced_key .comma "name" rfl).append ((spaced_quote "B").append (spaced_word .endObject))))
  have hopen : Spaced [.beginArray] " [" := (spaced_word .beginArray).space rfl
  have hsource : v.WrittenAs source := ⟨rfl,
    (spaced_key .beginObject "arguments" rfl).append (hopen.append (hspaced.append
      ((spaced_word .endArray).append ((spaced_key .comma "name" rfl).append
        ((spaced_quote "A").append (spaced_word .endObject))))))⟩
  have hread := ((texts_read_back_iff d).2 v hv).2 source hsource
  exact ⟨hv, hsource, hread.2 (by decide)⟩

def tower : Nat → TypeDescriptor
  | 0 => ⟨"A", [], none, []⟩
  | n + 1 => ⟨"A", [], none, [tower n]⟩

theorem levels_tower (n : Nat) : (tower n).levels = n + 1 := by
  induction n with
  | zero => rfl
  | succ n ih => rw [tower, levels, argumentLevels, argumentLevels, ih, Nat.max_zero]

theorem not_read_back_of_deep : run reader (tower 63).toJson ≠ .ok (tower 63) := by
  intro h
  have hlevels := (run_toJson_eq_ok_iff (tower 63)).1 h
  rw [levels_tower] at hlevels
  omega

end Docmark.TypeDescriptor
