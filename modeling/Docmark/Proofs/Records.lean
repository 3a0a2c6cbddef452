import Mathlib.Data.List.Forall2
import Mathlib.Data.List.Nodup
import Docmark.Proofs.JsonValues

/-!
What a record says: which values its keys have, and what it means for one to be left out. A reader of
records takes just what is said; the order of the keys makes no difference, and keys of no field are
passed over.
-/

namespace Docmark.Json

inductive SaysText : Value → Text → Prop
  | intro {parts : List Part} {t : Text} :
    Quoted.Says parts t → SaysText (.scalar (.text ⟨parts, none⟩)) t

inductive SaysOptional {α : Type} (item : Value → α → Prop) : Value → Option α → Prop
  | none : SaysOptional item (.scalar .null) none
  | some {v : Value} {a : α} : item v a → SaysOptional item v (some a)

inductive SaysList {α : Type} (item : Value → α → Prop) : Value → List α → Prop
  | intro {vs : List Value} {as : List α} :
    List.Forall₂ item vs as → SaysList item (.array vs none) as

/-- The values given for a field: none, so that it has its default, or one that says what it is. -/
inductive SaysField {α : Type} (item : Value → α → Prop) (default : α) : List Value → α → Prop
  | leftOut : SaysField item default [] default
  | given {v : Value} {a : α} : item v a → SaysField item default [v] a

theorem saysList_array_iff {α : Type} {item : Value → α → Prop} {vs : List Value} {as : List α} :
    SaysList item (.array vs none) as ↔ List.Forall₂ item vs as := by
  constructor
  · rintro ⟨h⟩
    exact h
  · exact .intro

theorem saysField_singleton_iff {α : Type} {item : Value → α → Prop} {default a : α} {v : Value} :
    SaysField item default [v] a ↔ item v a := by
  constructor
  · rintro (_ | h)
    exact h
  · exact .given

theorem SaysField.cases {α : Type} {item : Value → α → Prop} {default a : α} {vs : List Value}
    (h : SaysField item default vs a) : vs = [] ∧ a = default ∨ ∃ v, vs = [v] ∧ item v a := by
  cases h with
  | leftOut => exact .inl ⟨rfl, rfl⟩
  | given ha => exact .inr ⟨_, rfl, ha⟩

theorem SaysField.perm {α : Type} {item : Value → α → Prop} {default a : α} {vs ws : List Value}
    (h : SaysField item default vs a) (hp : vs.Perm ws) : SaysField item default ws a := by
  cases h with
  | leftOut => exact List.nil_perm.1 hp ▸ .leftOut
  | given ha => exact List.singleton_perm.1 hp ▸ .given ha

def valuesOf (key : Text) (given : List (Quoted × Value)) : List Value :=
  (given.filter fun entry => entry.1.read.toOption = some key).map (·.2)

theorem valuesOf_cons (key : Text) (entry : Quoted × Value) (given : List (Quoted × Value)) :
    valuesOf key (entry :: given) =
      if entry.1.read.toOption = some key then entry.2 :: valuesOf key given else valuesOf key given := by
  simp only [valuesOf, List.filter_cons, decide_eq_true_eq]
  split
  · rw [List.map_cons]
  · rfl

theorem valuesOf_cons_of_read {key : Text} {entry : Quoted × Value} (h : entry.1.read = .ok key)
    (given : List (Quoted × Value)) : valuesOf key (entry :: given) = entry.2 :: valuesOf key given := by
  rw [valuesOf_cons, if_pos (by rw [h]; rfl)]

theorem valuesOf_cons_of_ne {key name : Text} {entry : Quoted × Value} (h : entry.1.read = .ok name)
    (hne : name ≠ key) (given : List (Quoted × Value)) :
    valuesOf key (entry :: given) = valuesOf key given := by
  rw [valuesOf_cons, if_neg (by rw [h]; exact fun heq => hne (Option.some.inj heq))]

theorem valuesOf_perm (key : Text) {given others : List (Quoted × Value)} (h : given.Perm others) :
    (valuesOf key given).Perm (valuesOf key others) :=
  (h.filter _).map _

namespace Reader

section Values

variable {α : Type} {item : Reader α} {room : Nat} {v : Value}

theorem text_eq_ok_iff {t : Text} : text room v = .ok t ↔ SaysText v t := by
  constructor
  · intro h
    unfold text at h
    split at h
    · next q =>
      obtain ⟨parts, fault⟩ := q
      obtain ⟨rfl, hsaid⟩ := Quoted.read_eq_ok_iff.1 h
      exact .intro hsaid
    · cases h
  · rintro ⟨hsaid⟩
    exact Quoted.read_eq_ok_iff.2 ⟨rfl, hsaid⟩

theorem optional_eq_ok_iff (hnull : ∀ a, item room (.scalar .null) ≠ .ok a) {o : Option α} :
    optional item room v = .ok o ↔ SaysOptional (fun v a => item room v = .ok a) v o := by
  constructor
  · intro h
    unfold optional at h
    split at h
    · cases h
      exact .none
    · obtain ⟨a, ha, rfl⟩ := map_eq_ok_iff.1 h
      exact .some ha
  · rintro (_ | h)
    · rfl
    · unfold optional
      split
      · exact absurd h (hnull _)
      · exact map_eq_ok_iff.2 ⟨_, h, rfl⟩

theorem saysText_eq (room : Nat) : SaysText = fun v t => text room v = .ok t := by
  funext v t
  exact propext text_eq_ok_iff.symm

theorem saysOptional_text_eq (room : Nat) :
    SaysOptional SaysText = fun v o => optional text room v = .ok o := by
  funext v o
  rw [optional_eq_ok_iff nofun, saysText_eq room]

theorem items_eq_ok_iff {read : Value → Except Fault α} {vs : List Value} {as : List α} :
    items read vs = .ok as ↔ List.Forall₂ (fun v a => read v = .ok a) vs as := by
  induction vs generalizing as with
  | nil => simp [items, eq_comm, List.forall₂_nil_left_iff]
  | cons v vs ih =>
    simp only [items, bind_eq_ok_iff, ih, List.forall₂_cons_left_iff, pure, Except.pure, Except.ok.injEq]
    constructor
    · rintro ⟨a, ha, more, hmore, rfl⟩
      exact ⟨a, more, ha, hmore, rfl⟩
    · rintro ⟨a, more, ha, hmore, rfl⟩
      exact ⟨a, ha, more, hmore, rfl⟩

theorem settle_eq_ok_iff {fault : Option Fault} {u : Unit} : settle fault = .ok u ↔ fault = none := by
  cases fault <;> simp [settle]

theorem list_eq_ok_iff {as : List α} : list item (room + 1) v = .ok as ↔
    SaysList (fun v a => item room v = .ok a) v as := by
  constructor
  · intro h
    unfold list at h
    split at h
    · next hzero => cases hzero
    · next hroom =>
      cases hroom
      simp only [bind_eq_ok_iff, items_eq_ok_iff, settle_eq_ok_iff] at h
      obtain ⟨read, hitems, -, rfl, ⟨⟩⟩ := h
      exact .intro hitems
    · cases h
  · rintro ⟨hitems⟩
    rw [list, items_eq_ok_iff.2 hitems]
    rfl

theorem saysList_text_eq (room : Nat) :
    SaysList SaysText = fun v ts => list text (room + 1) v = .ok ts := by
  funext v ts
  rw [list_eq_ok_iff, saysText_eq room]

theorem list_zero_ne_ok (as : List α) : list item 0 v ≠ .ok as := by
  intro h
  unfold list at h
  split at h
  · cases h
  · next hzero => cases hzero
  · cases h

end Values

structure Slot (σ : Type) where
  Content : Type
  key : Text
  get : σ → Option Content
  put : σ → Content → σ
  item : Reader Content

def Slot.field {σ : Type} (slot : Slot σ) : FieldReader σ where
  key := slot.key
  isSet s := (slot.get s).isSome
  set s room v := do return slot.put s (← slot.item room v)

structure Separate {σ : Type} (slots : List (Slot σ)) : Prop where
  nodup : (slots.map Slot.key).Nodup
  get_put : ∀ slot ∈ slots, ∀ s a, slot.get (slot.put s a) = some a
  get_put_of_ne : ∀ slot ∈ slots, ∀ other ∈ slots, other.key ≠ slot.key →
    ∀ s a, other.get (slot.put s a) = other.get s
  ext : ∀ s s', (∀ slot ∈ slots, slot.get s = slot.get s') → s = s'

inductive Filled {α : Type} (item : Value → Except Fault α) : Option α → List Value → Option α → Prop
  | kept {old : Option α} : Filled item old [] old
  | filled {v : Value} {a : α} : item v = .ok a → Filled item none [v] (some a)

section Slots

variable {σ : Type} {slots : List (Slot σ)} {slot : Slot σ} {name : Text}

theorem find?_eq_none_iff : (slots.map Slot.field).find? (·.key = name) = none ↔
    ∀ slot ∈ slots, slot.key ≠ name := by
  simp [Slot.field]

theorem find?_eq_some (hkeys : (slots.map Slot.key).Nodup) (hslot : slot ∈ slots) :
    (slots.map Slot.field).find? (·.key = slot.key) = some slot.field := by
  induction slots with
  | nil => exact absurd hslot List.not_mem_nil
  | cons first slots ih =>
    rw [List.map_cons, List.nodup_cons] at hkeys
    rcases List.mem_cons.1 hslot with rfl | hmem
    · simp [Slot.field]
    · have hne : first.key ≠ slot.key := fun heq => hkeys.1 (heq ▸ List.mem_map_of_mem hmem)
      rw [List.map_cons, List.find?_cons_of_neg (by simpa [Slot.field] using hne), ih hkeys.2 hmem]

def Legible (slots : List (Slot σ)) (given : List (Quoted × Value)) : Prop :=
  ∀ entry ∈ given, ∃ name, entry.1.read = .ok name ∧
    ((∀ slot ∈ slots, slot.key ≠ name) → entry.2.IsWhole)

theorem legible_cons {entry : Quoted × Value} {given : List (Quoted × Value)} :
    Legible slots (entry :: given) ↔ (∃ name, entry.1.read = .ok name ∧
      ((∀ slot ∈ slots, slot.key ≠ name) → entry.2.IsWhole)) ∧ Legible slots given :=
  List.forall_mem_cons

theorem set_eq_ok_iff {room : Nat} {s s' : σ} {v : Value} :
    slot.field.set s room v = .ok s' ↔ ∃ a, slot.item room v = .ok a ∧ slot.put s a = s' := by
  simp [Slot.field, bind_eq_ok_iff, pure, Except.pure]

theorem filled_nil {α : Type} {item : Value → Except Fault α} {old new : Option α} :
    Filled item old [] new ↔ new = old := by
  constructor
  · rintro ⟨⟩
    rfl
  · rintro rfl
    exact .kept

theorem filled_some_iff {α : Type} {item : Value → Except Fault α} {vs : List Value} {a : α} :
    Filled item none vs (some a) ↔ ∃ v, vs = [v] ∧ item v = .ok a := by
  constructor
  · rintro (_ | h)
    exact ⟨_, rfl, h⟩
  · rintro ⟨v, rfl, h⟩
    exact .filled h

theorem filled_cons {α : Type} {item : Value → Except Fault α} {old new : Option α} {v : Value}
    {vs : List Value} :
    Filled item old (v :: vs) new ↔ old = none ∧ ∃ a, item v = .ok a ∧ Filled item (some a) vs new := by
  constructor
  · rintro (_ | h)
    exact ⟨rfl, _, h, .kept⟩
  · rintro ⟨rfl, a, ha, hvs⟩
    cases hvs
    exact .filled ha

theorem setFields_cons_unknown {room : Nat} {s s' : σ} {entry : Quoted × Value}
    {given : List (Quoted × Value)} (hname : entry.1.read = .ok name)
    (hkey : ∀ slot ∈ slots, slot.key ≠ name) :
    setFields (slots.map Slot.field) room s (entry :: given) = .ok s' ↔
      entry.2.IsWhole ∧ setFields (slots.map Slot.field) room s given = .ok s' := by
  rw [setFields, bind_eq_ok_iff, hname]
  simp only [Except.ok.injEq, exists_eq_left', find?_eq_none_iff.2 hkey, bind_eq_ok_iff, settle_eq_ok_iff,
    exists_const, Value.IsWhole]

theorem setFields_cons_known (hl : Separate slots) (hslot : slot ∈ slots) {room : Nat} {s s' : σ}
    {entry : Quoted × Value} {given : List (Quoted × Value)} (hname : entry.1.read = .ok slot.key) :
    setFields (slots.map Slot.field) room s (entry :: given) = .ok s' ↔
      slot.get s = none ∧ ∃ a, slot.item room entry.2 = .ok a ∧
        setFields (slots.map Slot.field) room (slot.put s a) given = .ok s' := by
  have hisSet : slot.field.isSet s = (slot.get s).isSome := rfl
  rw [setFields, bind_eq_ok_iff, hname]
  simp only [Except.ok.injEq, exists_eq_left', find?_eq_some hl.nodup hslot, hisSet]
  cases slot.get s with
  | some old => simp
  | none =>
    simp only [Option.isSome_none, Bool.false_eq_true, if_false, bind_eq_ok_iff, set_eq_ok_iff, true_and]
    constructor
    · rintro ⟨_, ⟨a, ha, rfl⟩, hmore⟩
      exact ⟨a, ha, hmore⟩
    · rintro ⟨a, ha, hmore⟩
      exact ⟨_, ⟨a, ha, rfl⟩, hmore⟩

theorem filled_put_iff (hl : Separate slots) (hslot : slot ∈ slots) {room : Nat} {s : σ}
    {entry : Quoted × Value} {given : List (Quoted × Value)} {a : slot.Content}
    (hname : entry.1.read = .ok slot.key) (hnone : slot.get s = none)
    (ha : slot.item room entry.2 = .ok a) {other : Slot σ} (hother : other ∈ slots)
    {new : Option other.Content} :
    Filled (other.item room) (other.get s) (valuesOf other.key (entry :: given)) new ↔
      Filled (other.item room) (other.get (slot.put s a)) (valuesOf other.key given) new := by
  by_cases hkey : other.key = slot.key
  · obtain rfl : other = slot := List.inj_on_of_nodup_map hl.nodup hother hslot hkey
    rw [valuesOf_cons_of_read hname, filled_cons, hl.get_put other hother]
    constructor
    · rintro ⟨-, b, hb, hmore⟩
      obtain rfl : a = b := by simpa [ha] using hb
      exact hmore
    · exact fun hmore => ⟨hnone, a, ha, hmore⟩
  · rw [valuesOf_cons_of_ne hname (Ne.symm hkey), hl.get_put_of_ne slot hslot other hother hkey]

theorem setFields_eq_ok_iff (hl : Separate slots) {room : Nat} {s s' : σ} {given : List (Quoted × Value)} :
    setFields (slots.map Slot.field) room s given = .ok s' ↔ Legible slots given ∧
      ∀ slot ∈ slots, Filled (slot.item room) (slot.get s) (valuesOf slot.key given) (slot.get s') := by
  induction given generalizing s with
  | nil =>
    constructor
    · rintro ⟨⟩
      exact ⟨List.forall_mem_nil _, fun slot _ => .kept⟩
    · rintro ⟨-, hfilled⟩
      rw [setFields, hl.ext s s' fun slot hslot => (filled_nil.1 (hfilled slot hslot)).symm]
  | cons entry given ih =>
    rw [legible_cons]
    cases hname : entry.1.read with
    | error fault => simp [setFields, hname, bind, Except.bind]
    | ok name =>
      by_cases hkey : ∀ slot ∈ slots, slot.key ≠ name
      · have hvalues (slot : Slot σ) (hslot : slot ∈ slots) :
            valuesOf slot.key (entry :: given) = valuesOf slot.key given :=
          valuesOf_cons_of_ne hname (hkey slot hslot).symm given
        rw [setFields_cons_unknown hname hkey, ih]
        constructor
        · rintro ⟨hwhole, hlegible, hfilled⟩
          exact ⟨⟨⟨name, rfl, fun _ => hwhole⟩, hlegible⟩,
            fun slot hslot => hvalues slot hslot ▸ hfilled slot hslot⟩
        · rintro ⟨⟨⟨_, ⟨⟩, hwhole⟩, hlegible⟩, hfilled⟩
          exact ⟨hwhole hkey, hlegible, fun slot hslot => hvalues slot hslot ▸ hfilled slot hslot⟩
      · obtain ⟨slot, hslot, rfl⟩ : ∃ slot ∈ slots, slot.key = name := by simpa using hkey
        rw [setFields_cons_known hl hslot hname]
        simp only [ih]
        constructor
        · rintro ⟨hnone, a, ha, hlegible, hfilled⟩
          refine ⟨⟨⟨_, rfl, fun hno => absurd rfl (hno slot hslot)⟩, hlegible⟩, fun other hother => ?_⟩
          exact (filled_put_iff hl hslot hname hnone ha hother).2 (hfilled other hother)
        · rintro ⟨⟨-, hlegible⟩, hfilled⟩
          have hthis := hfilled slot hslot
          rw [valuesOf_cons_of_read hname, filled_cons] at hthis
          obtain ⟨hnone, a, ha, -⟩ := hthis
          refine ⟨hnone, a, ha, hlegible, fun other hother => ?_⟩
          exact (filled_put_iff hl hslot hname hnone ha hother).1 (hfilled other hother)

theorem setInOrder_nil {room : Nat} {fault : Option Fault} {fields : List (FieldReader σ)} {s s' : σ} :
    setInOrder room fault fields s [] = .ok s' ↔ fault = none ∧ s = s' := by
  simp [setInOrder, map_eq_ok_iff, settle_eq_ok_iff]

theorem setInOrder_cons {room : Nat} {fault : Option Fault} {fields : List (FieldReader σ)} {s s' : σ}
    {v : Value} {vs : List Value} :
    setInOrder room fault (slot.field :: fields) s (v :: vs) = .ok s' ↔
      ∃ a, slot.item room v = .ok a ∧ setInOrder room fault fields (slot.put s a) vs = .ok s' := by
  rw [setInOrder, bind_eq_ok_iff]
  simp only [set_eq_ok_iff]
  constructor
  · rintro ⟨_, ⟨a, ha, rfl⟩, hmore⟩
    exact ⟨a, ha, hmore⟩
  · rintro ⟨a, ha, hmore⟩
    exact ⟨_, ⟨a, ha, rfl⟩, hmore⟩

theorem setInOrder_ne_ok {room : Nat} {fault : Option Fault} {s s' : σ} {v : Value} {vs : List Value} :
    setInOrder room fault [] s (v :: vs) ≠ .ok s' :=
  nofun

theorem mem_valuesOf {key : Text} {entry : Quoted × Value} {given : List (Quoted × Value)}
    (hentry : entry ∈ given) (hname : entry.1.read = .ok key) : entry.2 ∈ valuesOf key given := by
  refine List.mem_map_of_mem (List.mem_filter.2 ⟨hentry, ?_⟩)
  simp [hname, Except.toOption]

theorem isWhole_of_filled {α : Type} {item : Value → Except Fault α} {old new : Option α}
    {vs : List Value} (h : Filled item old vs new) (hitem : ∀ v a, item v = .ok a → v.IsWhole) :
    ∀ v ∈ vs, v.IsWhole := by
  cases h with
  | kept => exact List.forall_mem_nil _
  | filled ha => exact List.forall_mem_singleton.2 (hitem _ _ ha)

theorem isWhole_of_setFields (hl : Separate slots) {room : Nat} {s s' : σ} {given : List (Quoted × Value)}
    (hitem : ∀ slot ∈ slots, ∀ v a, slot.item room v = .ok a → v.IsWhole)
    (h : setFields (slots.map Slot.field) room s given = .ok s') :
    (Value.object given none).IsWhole := by
  obtain ⟨hlegible, hfilled⟩ := (setFields_eq_ok_iff hl).1 h
  refine Value.isWhole_object.2 ⟨fun entry hentry => ?_, rfl⟩
  obtain ⟨name, hname, hunknown⟩ := hlegible entry hentry
  refine ⟨(Quoted.read_eq_ok_iff.1 hname).1, ?_⟩
  by_cases hkey : ∀ slot ∈ slots, slot.key ≠ name
  · exact hunknown hkey
  · obtain ⟨slot, hslot, rfl⟩ : ∃ slot ∈ slots, slot.key = name := by simpa using hkey
    exact isWhole_of_filled (hfilled slot hslot) (hitem slot hslot) _ (mem_valuesOf hentry hname)

theorem saysField_iff {α : Type} {item : Value → Except Fault α} {default a : α} {vs : List Value} :
    SaysField (fun v a => item v = .ok a) default vs a ↔
      ∃ new, Filled item none vs new ∧ new.getD default = a := by
  constructor
  · rintro (_ | h)
    · exact ⟨none, .kept, rfl⟩
    · exact ⟨_, .filled h, rfl⟩
  · rintro ⟨_, _ | h, rfl⟩
    · exact .leftOut
    · exact .given h

theorem record_object_eq_ok_iff {α : Type} {fields : List (FieldReader σ)} {start : σ}
    {finish : σ → Except Fault α} {room : Nat} {given : List (Quoted × Value)} {fault : Option Fault}
    {a : α} : record fields start finish (room + 1) (.object given fault) = .ok a ↔
      fault = none ∧ ∃ s, setFields fields room start given = .ok s ∧ finish s = .ok a := by
  simp only [record, bind_eq_ok_iff, settle_eq_ok_iff]
  constructor
  · rintro ⟨s, hs, -, hfault, ha⟩
    exact ⟨hfault, s, hs, ha⟩
  · rintro ⟨hfault, s, hs, ha⟩
    exact ⟨s, hs, (), hfault, ha⟩

theorem record_array_eq_ok_iff {α : Type} {fields : List (FieldReader σ)} {start : σ}
    {finish : σ → Except Fault α} {room : Nat} {vs : List Value} {fault : Option Fault} {a : α} :
    record fields start finish (room + 1) (.array vs fault) = .ok a ↔
      ∃ s, setInOrder room fault fields start vs = .ok s ∧ finish s = .ok a :=
  bind_eq_ok_iff

theorem record_zero_ne_ok {α : Type} {fields : List (FieldReader σ)} {start : σ}
    {finish : σ → Except Fault α} {given : List (Quoted × Value)} {fault : Option Fault} (a : α) :
    record fields start finish 0 (.object given fault) ≠ .ok a :=
  nofun

end Slots

end Reader

def Value.ofText (t : Text) : Value :=
  .scalar (.text (.ofText t))

theorem saysText_ofText (t : Text) : SaysText (.ofText t) t :=
  .intro (Quoted.says_chars t)

theorem spaced_key {mark : Token} {w : Text} (hmark : Token.Written mark w) (key : Text) {t : Text}
    (ht : t = w ++ (quote key ++ [':'])) : Spaced [mark, .scalar (.text (.ofText key)), .colon] t := by
  rw [ht]
  exact (spaced_word hmark).append ((spaced_quote key).append (spaced_word .colon))

theorem spaced_joinWith {separator : Text} (hseparator : Spaced [.comma] separator) {vs : List Value}
    {ts : List Text} (h : List.Forall₂ (fun v t => Spaced v.tokens t) vs ts) :
    Spaced (Value.itemTokens vs).tail (Text.joinWith separator ts) := by
  induction h with
  | nil => exact .nil rfl
  | @cons v t vs ts hv hmore ih =>
    cases hmore with
    | nil =>
      rw [Text.joinWith_singleton, Value.itemTokens, Value.itemTokens, List.tail_cons, List.append_nil]
      exact hv
    | cons =>
      rw [Text.joinWith_cons_cons, Value.itemTokens, Value.itemTokens, List.tail_cons,
        ← List.singleton_append, ← List.append_assoc]
      exact (hv.append hseparator).append ih

theorem isWhole_of_saysText {t : Text} {v : Value} (h : SaysText v t) : v.IsWhole := by
  cases h
  rfl

theorem isWhole_of_mem_valuesOf {key : Text} {given : List (Quoted × Value)}
    (h : (Value.object given none).IsWhole) : ∀ v ∈ valuesOf key given, v.IsWhole := by
  intro v hv
  obtain ⟨entry, hentry, rfl⟩ := List.mem_map.1 hv
  exact ((Value.isWhole_object.1 h).1 entry (List.mem_filter.1 hentry).1).2

theorem isWhole_of_saysList {α : Type} {item : Value → α → Prop} (hitem : ∀ v a, item v a → v.IsWhole)
    {as : List α} {v : Value} (h : SaysList item v as) : v.IsWhole := by
  obtain ⟨hitems⟩ := h
  refine Value.isWhole_array.2 ⟨fun v hv => ?_, rfl⟩
  induction hitems with
  | nil => exact absurd hv List.not_mem_nil
  | cons ha _ ih =>
    rcases List.mem_cons.1 hv with rfl | hmem
    · exact hitem _ _ ha
    · exact ih hmem

end Docmark.Json
