import Mathlib.Data.List.Nodup
import Mathlib.Data.List.TakeWhile
import Docmark.Metadata.Table
import Docmark.Proofs.Identifiers

namespace Docmark

namespace TypeEntry

variable {entry : TypeEntry} {kind : Kind} {name bare : Text} {m : MemberEntry}

def member? (entry : TypeEntry) (kind : Kind) (name : Text) : Option MemberEntry :=
  let candidates := entry.members.filter (·.kind = kind)
  (candidates.find? (·.name = name)).or (candidates.find? fun m => baseName m.name = baseName name)

def First (entry : TypeEntry) (p : MemberEntry → Prop) (m : MemberEntry) : Prop :=
  ∃ before behind, entry.members = before ++ m :: behind ∧ p m ∧ ∀ b ∈ before, ¬ p b

/-- An entry with the wanted name goes before all that only share the name in front of the
parameter list. -/
inductive Answers (entry : TypeEntry) (kind : Kind) (name bare : Text) : MemberEntry → Prop
  | exact {m : MemberEntry} (h : entry.First (fun m => m.kind = kind ∧ m.name = name) m) :
    Answers entry kind name bare m
  | bare {m : MemberEntry} (hnone : ∀ b ∈ entry.members, ¬ (b.kind = kind ∧ b.name = name))
    (h : entry.First (fun m => m.kind = kind ∧ baseName m.name = bare) m) :
    Answers entry kind name bare m

theorem find?_members {p : MemberEntry → Prop} [DecidablePred p] :
    (entry.members.filter (·.kind = kind)).find? (fun m => decide (p m)) = some m ↔
      entry.First (fun m => m.kind = kind ∧ p m) m := by
  rw [List.find?_filter, List.find?_eq_some_iff_append]
  simp only [First, decide_eq_true_eq, Bool.not_eq_true', decide_eq_false_iff_not]
  constructor
  · rintro ⟨hp, before, behind, hmembers, hfirst⟩
    exact ⟨before, behind, hmembers, hp, hfirst⟩
  · rintro ⟨before, behind, hmembers, hp, hfirst⟩
    exact ⟨hp, before, behind, hmembers, hfirst⟩

theorem member?_eq_some_iff :
    entry.member? kind name = some m ↔ entry.Answers kind name (baseName name) m := by
  rw [member?, Option.or_eq_some_iff, find?_members, find?_members, List.find?_filter,
    List.find?_eq_none]
  simp only [decide_eq_true_eq]
  constructor
  · rintro (h | ⟨hnone, h⟩)
    · exact .exact h
    · exact .bare hnone h
  · rintro (h | ⟨hnone, h⟩)
    · exact .inl h
    · exact .inr ⟨hnone, h⟩

end TypeEntry

namespace MemberId

variable {raw : Text} {id : MemberId}

theorem baseName_signature (h : parse? raw = some id) : baseName id.signature = id.memberName := by
  have hname : '(' ∉ id.memberName := fun hc => not_mem_name h (Text.mem_of_mem_afterLast hc)
  unfold baseName signature
  split
  · rw [List.append_assoc, List.append_assoc]
    refine Text.beforeFirst_append hname ?_
    rintro c ⟨⟩
    rfl
  · exact Text.beforeFirst_of_not_mem hname

end MemberId

namespace MetadataTable

variable {table : MetadataTable} {entry : TypeEntry} {name : Text}

theorem findMember?_eq (table : MetadataTable) (className : Text) (kind : Kind) (member : Text) :
    table.findMember? className kind member =
      (table.findType? className).bind fun entry => entry.member? kind member := rfl

theorem mem_of_exactType? (h : table.exactType? name = some entry) :
    entry ∈ table.types ∧ entry.name = name := by
  have hname := List.find?_some h
  have hmem := List.mem_of_find?_eq_some h
  exact ⟨List.mem_reverse.1 hmem, of_decide_eq_true hname⟩

def Spells (written name : Text) : Prop :=
  written = name ∨
    ∃ outer inner, name = outer ++ '.' :: inner ∧ '.' ∉ inner ∧ written = outer ++ '+' :: inner

theorem spells_of_findType? (h : table.findType? name = some entry) :
    entry ∈ table.types ∧ Spells entry.name name := by
  rw [findType?, Option.or_eq_some_iff] at h
  rcases h with h | ⟨-, h⟩
  · obtain ⟨hmem, hname⟩ := mem_of_exactType? h
    exact ⟨hmem, .inl hname⟩
  · simp only [Option.bind_eq_bind, Option.bind_eq_some_iff, Prod.exists] at h
    obtain ⟨outer, inner, hcut, h⟩ := h
    obtain ⟨hmem, hname⟩ := mem_of_exactType? h
    obtain ⟨hdot, hinner⟩ := Text.eq_of_cutLast? hcut
    exact ⟨hmem, .inr ⟨outer, inner, hdot, hinner, hname.trans (by simp)⟩⟩

theorem visibility?_eq_of_type {id : MemberId} (h : id.kind = .type) :
    table.visibility? id = (table.findType? id.name).map (·.isPublic) := by
  rw [visibility?, h]

theorem visibility?_eq_of_member {id : MemberId} (ht : id.kind ≠ .type) (hs : id.kind ≠ .scope) :
    table.visibility? id = (table.findType? id.declaringType).bind fun entry =>
      (entry.member? id.kind id.signature).map (·.isPublic) := by
  rw [visibility?]
  split
  · next h => exact absurd h ht
  · next h => exact absurd h hs
  · rw [findMember?_eq, Option.map_bind]
    rfl

end MetadataTable

namespace Resolver

open MetadataTable

variable {table : MetadataTable}

theorem isPublic_ofTable (table : MetadataTable) (id : MemberId) :
    (ofTable table).isPublic id = (table.visibility? id).getD true := rfl

/-- A member is hidden by the entry that answers for it, which need not be one of its own: where none
has its signature, the first of its kind with its name answers. -/
theorem isPublic_ofTable_eq_false_iff {raw : Text} {id : MemberId}
    (hid : MemberId.parse? raw = some id) :
    ((ofTable table).isPublic id = false ↔
      (id.kind = .type ∧ ∃ entry, table.findType? id.name = some entry ∧ entry.isPublic = false) ∨
      (id.kind ≠ .type ∧ id.kind ≠ .scope ∧ ∃ entry m, table.findType? id.declaringType = some entry ∧
        entry.Answers id.kind id.signature id.memberName m ∧ m.isPublic = false)) ∧
    ∀ name entry, table.findType? name = some entry →
      entry ∈ table.types ∧ Spells entry.name name := by
  refine ⟨?_, fun name entry => spells_of_findType?⟩
  have hfalse : (ofTable table).isPublic id = false ↔ table.visibility? id = some false := by
    rw [isPublic_ofTable]
    cases table.visibility? id <;> simp
  rw [hfalse]
  by_cases ht : id.kind = .type
  · rw [visibility?_eq_of_type ht, Option.map_eq_some_iff]
    simp [ht]
  · by_cases hs : id.kind = .scope
    · simp [visibility?, hs]
    · rw [visibility?_eq_of_member ht hs]
      simp only [Option.bind_eq_some_iff, Option.map_eq_some_iff, TypeEntry.member?_eq_some_iff,
        MemberId.baseName_signature hid]
      simp [ht, hs]

def runTable : MetadataTable :=
  ⟨none, [⟨"A.W", true, [⟨.method, "Run(System.Int32)", false, none⟩]⟩]⟩

def otherRun : MemberId :=
  ⟨.method, "A.W.Run", some ["System.String"], "M:A.W.Run(System.String)"⟩

theorem isPublic_ofTable_eq_false_iff_run :
    MemberId.parse? "M:A.W.Run(System.String)" = some otherRun ∧
      (ofTable runTable).isPublic otherRun = false ∧
      ∃ entry m, runTable.findType? "A.W" = some entry ∧
        entry.Answers .method "Run(System.String)" "Run" m ∧ m.isPublic = false := by
  have hid : MemberId.parse? "M:A.W.Run(System.String)" = some otherRun := by decide
  have hhidden : (ofTable runTable).isPublic otherRun = false := by decide
  obtain ⟨hkind, -⟩ | ⟨-, -, entry, m, hentry, hm, hpublic⟩ :=
    (isPublic_ofTable_eq_false_iff hid).1.1 hhidden
  · cases hkind
  · exact ⟨hid, hhidden, entry, m, hentry, hm, hpublic⟩

theorem unlisted_overload_hidden :
    MemberId.parse? "M:A.W.Run(System.String)" = some otherRun ∧
      (ofTable runTable).isPublic otherRun = false ∧
      ¬ ∃ entry m, runTable.findType? otherRun.declaringType = some entry ∧ m ∈ entry.members ∧
        m.kind = otherRun.kind ∧ m.isPublic = false ∧
        (m.name = otherRun.signature ∨ m.name = otherRun.memberName) := by
  refine ⟨by decide, by decide, ?_⟩
  rintro ⟨entry, m, hentry, hm, -, -, hname⟩
  have hfound : runTable.findType? otherRun.declaringType = some runTable.types[0] := rfl
  cases hfound.symm.trans hentry
  cases List.mem_singleton.1 hm
  exact absurd hname (by decide)

end Resolver

theorem MemberId.of_parse?_type {name : Text} {id : MemberId} (h : '(' ∉ name)
    (hid : parse? ("T:" ++ name) = some id) : id.kind = .type ∧ id.name = name := by
  have hkind : Kind.ofLetter? 'T' = some .type := rfl
  change parse? ('T' :: ':' :: name) = some id at hid
  rw [parse?, hkind, splitBody?, Text.cutFirst?_eq_none.2 h] at hid
  simp only [Option.bind_eq_bind, Option.bind_eq_some_iff, Prod.exists, Option.some.injEq,
    Option.ite_none_left_eq_some, Prod.mk.injEq] at hid
  obtain ⟨_, rfl, _, _, ⟨-, rfl, rfl⟩, -, rfl⟩ := hid
  exact ⟨rfl, rfl⟩

namespace MetadataTable

variable {table : MetadataTable} {entry : TypeEntry} {name written : Text}

def dotted (name : Text) : Text :=
  name.map fun c => if c = '+' then '.' else c

def NestedOnceAtMost (name : Text) : Prop :=
  '+' ∉ name ∨ ∃ outer inner, name = outer ++ '+' :: inner ∧ '+' ∉ outer ∧ '+' ∉ inner ∧ '.' ∉ inner

theorem dotted_append (s t : Text) : dotted (s ++ t) = dotted s ++ dotted t :=
  List.map_append

theorem dotted_of_not_mem (h : '+' ∉ name) : dotted name = name := by
  have hkeep : ∀ c ∈ name, (if c = '+' then '.' else c) = c := by
    intro c hc
    rw [if_neg]
    rintro rfl
    exact h hc
  rw [dotted, List.map_congr_left hkeep, List.map_id']

theorem not_mem_dotted (name : Text) : '+' ∉ dotted name := by
  simp only [dotted, List.mem_map, not_exists, not_and]
  intro c _
  split
  · decide
  · assumption

theorem dotted_dotted (name : Text) : dotted (dotted name) = dotted name :=
  dotted_of_not_mem (not_mem_dotted name)

theorem paren_not_mem_dotted (h : '(' ∉ name) : '(' ∉ dotted name := by
  simp only [dotted, List.mem_map, not_exists, not_and]
  intro c hc
  split
  · decide
  · rintro rfl
    exact h hc

theorem dotted_nested {outer inner : Text} (ho : '+' ∉ outer) (hi : '+' ∉ inner) :
    dotted (outer ++ '+' :: inner) = outer ++ '.' :: inner := by
  have hplus : dotted ('+' :: inner) = '.' :: dotted inner := rfl
  rw [dotted_append, hplus, dotted_of_not_mem ho, dotted_of_not_mem hi]

theorem dotted_of_spells (h : Spells written name) : dotted written = dotted name := by
  rcases h with rfl | ⟨outer, inner, rfl, -, rfl⟩
  · rfl
  · rw [dotted_append, dotted_append]
    rfl

theorem spells_dotted_iff : Spells name (dotted name) ↔ NestedOnceAtMost name := by
  constructor
  · rintro (h | ⟨outer, inner, hdotted, hi, h⟩)
    · exact .inl (h ▸ not_mem_dotted name)
    · have hplus := not_mem_dotted name
      rw [hdotted, List.mem_append, List.mem_cons, not_or, not_or] at hplus
      exact .inr ⟨outer, inner, h, hplus.1, hplus.2.2, hi⟩
  · rintro (h | ⟨outer, inner, rfl, ho, hi, hdot⟩)
    · exact .inl (dotted_of_not_mem h).symm
    · exact .inr ⟨outer, inner, dotted_nested ho hi, hdot, rfl⟩

theorem isSome_exactType? (he : entry ∈ table.types) (h : entry.name = name) :
    (table.exactType? name).isSome := by
  rw [exactType?, List.find?_isSome]
  exact ⟨entry, List.mem_reverse.2 he, decide_eq_true h⟩

theorem isSome_findType? (he : entry ∈ table.types) (h : Spells entry.name name) :
    (table.findType? name).isSome := by
  rw [findType?, Option.isSome_or, Bool.or_eq_true]
  rcases h with h | ⟨outer, inner, rfl, hi, h⟩
  · exact .inl (isSome_exactType? he h)
  · right
    rw [Text.cutLast?_append hi]
    apply isSome_exactType? he
    rw [h]
    exact (List.append_assoc outer ['+'] inner).symm

theorem NestedOnceAtMost.count_le (h : NestedOnceAtMost name) : name.count '+' ≤ 1 := by
  rcases h with h | ⟨outer, inner, rfl, ho, hi, -⟩
  · rw [List.count_eq_zero.2 h]
    exact Nat.zero_le 1
  · rw [List.count_append, List.count_cons_self, List.count_eq_zero.2 ho, List.count_eq_zero.2 hi]

theorem findType?_dotted (hd : (table.types.map fun e => dotted e.name).Nodup)
    (he : entry ∈ table.types) :
    (NestedOnceAtMost entry.name → table.findType? (dotted entry.name) = some entry) ∧
      (¬ NestedOnceAtMost entry.name → table.findType? (dotted entry.name) = none) := by
  have hunique {found : TypeEntry} (h : table.findType? (dotted entry.name) = some found) :
      found = entry := by
    obtain ⟨hfound, hspells⟩ := spells_of_findType? h
    apply List.inj_on_of_nodup_map hd hfound he
    rw [dotted_of_spells hspells, dotted_dotted]
  constructor
  · intro h
    obtain ⟨found, hfound⟩ := Option.isSome_iff_exists.1 (isSome_findType? he (spells_dotted_iff.2 h))
    rw [hfound, hunique hfound]
  · intro h
    cases hfound : table.findType? (dotted entry.name) with
    | none => rfl
    | some found =>
      have hspells := (spells_of_findType? hfound).2
      rw [hunique hfound] at hspells
      exact absurd (spells_dotted_iff.1 hspells) h

end MetadataTable

namespace Resolver

open MetadataTable

theorem entries_answer_under_dotted_names {table : MetadataTable}
    (hd : (table.types.map fun e => dotted e.name).Nodup) {entry : TypeEntry}
    (he : entry ∈ table.types) :
    let resolver := ofTable table
    let own := dotted entry.name
    (NestedOnceAtMost entry.name →
      ('(' ∉ entry.name → ∀ id, MemberId.parse? ("T:" ++ own) = some id →
        resolver.isPublic id = entry.isPublic) ∧
      (∀ kind member, resolver.typeOf? own kind member = (entry.member? kind member).bind (·.type)) ∧
      ∀ id : MemberId, id.declaringType = own → id.kind ≠ .type → id.kind ≠ .scope →
        resolver.isPublic id = ((entry.member? id.kind id.signature).map (·.isPublic)).getD true) ∧
    (¬ NestedOnceAtMost entry.name →
      ('(' ∉ entry.name → ∀ id, MemberId.parse? ("T:" ++ own) = some id →
        resolver.isPublic id = true) ∧
      (∀ kind member, resolver.typeOf? own kind member = none) ∧
      ∀ id : MemberId, id.declaringType = own → id.kind ≠ .type → id.kind ≠ .scope →
        resolver.isPublic id = true) := by
  intro resolver own
  have htype (hparen : '(' ∉ entry.name) {id : MemberId}
      (hid : MemberId.parse? ("T:" ++ own) = some id) :
      resolver.isPublic id = ((table.findType? own).map (·.isPublic)).getD true := by
    obtain ⟨hkind, hname⟩ := MemberId.of_parse?_type (paren_not_mem_dotted hparen) hid
    rw [isPublic_ofTable, visibility?_eq_of_type hkind, hname]
  have htypeOf (kind : Kind) (member : Text) : resolver.typeOf? own kind member =
      (table.findType? own).bind fun found => (found.member? kind member).bind (·.type) :=
    Option.bind_assoc (table.findType? own) _ _
  have hmember {id : MemberId} (hown : id.declaringType = own) (ht : id.kind ≠ .type)
      (hs : id.kind ≠ .scope) : resolver.isPublic id = ((table.findType? own).bind fun found =>
        (found.member? id.kind id.signature).map (·.isPublic)).getD true := by
    rw [isPublic_ofTable, visibility?_eq_of_member ht hs, hown]
  obtain ⟨hfound, hnone⟩ := findType?_dotted hd he
  refine ⟨fun h => ⟨?_, ?_, ?_⟩, fun h => ⟨?_, ?_, ?_⟩⟩
  · intro hparen id hid
    rw [htype hparen hid, hfound h]
    rfl
  · intro kind member
    rw [htypeOf, hfound h]
    rfl
  · intro id hown ht hs
    rw [hmember hown ht hs, hfound h]
    rfl
  · intro hparen id hid
    rw [htype hparen hid, hnone h]
    rfl
  · intro kind member
    rw [htypeOf, hnone h]
    rfl
  · intro id hown ht hs
    rw [hmember hown ht hs, hnone h]
    rfl

def nestedTable : MetadataTable :=
  ⟨none, [⟨"A.B+C", false, [⟨.field, "n", true, some ⟨"Int32", "System", none, []⟩⟩]⟩,
    ⟨"A.B+C+D", false, []⟩, ⟨"A.E(F)", false, []⟩]⟩

theorem nodup_nestedTable : (nestedTable.types.map fun e => dotted e.name).Nodup := by
  decide

theorem entries_answer_under_dotted_names_nested :
    (nestedTable.types.map fun e => dotted e.name).Nodup ∧ nestedTable.types[0] ∈ nestedTable.types ∧
      nestedTable.types[1] ∈ nestedTable.types ∧
      NestedOnceAtMost "A.B+C" ∧ ¬ NestedOnceAtMost "A.B+C+D" ∧
      (∃ id, MemberId.parse? "T:A.B.C" = some id ∧ (ofTable nestedTable).isPublic id = false) ∧
      (ofTable nestedTable).typeOf? "A.B.C" .field "n" = some ⟨"Int32", "System", none, []⟩ ∧
      (∃ id : MemberId, id.declaringType = "A.B.C" ∧ (ofTable nestedTable).isPublic id = true) ∧
      ∃ id, MemberId.parse? "T:A.B.C.D" = some id ∧ (ofTable nestedTable).isPublic id = true := by
  have hfirst : nestedTable.types[0] ∈ nestedTable.types := List.mem_cons_self
  have hsecond : nestedTable.types[1] ∈ nestedTable.types := List.mem_cons_of_mem _ List.mem_cons_self
  have hnested : NestedOnceAtMost "A.B+C" :=
    .inr ⟨"A.B", "C", by decide, by decide, by decide, by decide⟩
  have hdeep : ¬ NestedOnceAtMost "A.B+C+D" := fun h => absurd h.count_le (by decide)
  have hid : MemberId.parse? "T:A.B.C" = some ⟨.type, "A.B.C", none, "T:A.B.C"⟩ := by decide
  have hdeepId : MemberId.parse? "T:A.B.C.D" = some ⟨.type, "A.B.C.D", none, "T:A.B.C.D"⟩ := by
    decide
  have hown : MemberId.declaringType ⟨.field, "A.B.C.n", none, "F:A.B.C.n"⟩ = "A.B.C" := by
    decide
  obtain ⟨htype, htypeOf, hmember⟩ :=
    (entries_answer_under_dotted_names nodup_nestedTable hfirst).1 hnested
  obtain ⟨hdeepType, -, -⟩ :=
    (entries_answer_under_dotted_names nodup_nestedTable hsecond).2 hdeep
  refine ⟨nodup_nestedTable, hfirst, hsecond, hnested, hdeep, ⟨_, hid, ?_⟩, htypeOf .field "n",
    ⟨_, hown, ?_⟩, _, hdeepId, ?_⟩
  · exact htype (by decide) _ hid
  · exact hmember _ hown (by decide) (by decide)
  · exact hdeepType (by decide) _ hdeepId

/-- A type nested twice is not found, and neither is one with a parenthesis in its name. -/
theorem entries_not_found_under_dotted_names :
    (nestedTable.types.map fun e => dotted e.name).Nodup ∧
      (∃ entry ∈ nestedTable.types, ∃ id, '(' ∉ entry.name ∧
        MemberId.parse? ("T:" ++ dotted entry.name) = some id ∧
        (ofTable nestedTable).isPublic id ≠ entry.isPublic) ∧
      ∃ entry ∈ nestedTable.types, ∃ id, NestedOnceAtMost entry.name ∧
        MemberId.parse? ("T:" ++ dotted entry.name) = some id ∧
        (ofTable nestedTable).isPublic id ≠ entry.isPublic := by
  refine ⟨nodup_nestedTable, ?_, ?_⟩
  · refine ⟨⟨"A.B+C+D", false, []⟩, List.mem_cons_of_mem _ List.mem_cons_self,
      ⟨.type, "A.B.C.D", none, "T:A.B.C.D"⟩, ?_, ?_, ?_⟩ <;> decide
  · refine ⟨⟨"A.E(F)", false, []⟩, List.mem_cons_of_mem _ (List.mem_cons_of_mem _ List.mem_cons_self),
      ⟨.type, "A.E", some ["F"], "T:A.E(F)"⟩, .inl ?_, ?_, ?_⟩ <;> decide

end Resolver

end Docmark
