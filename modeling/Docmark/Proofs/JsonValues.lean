import Docmark.Proofs.JsonWords

namespace Docmark.Json

namespace Value

def IsWhole (v : Value) : Prop :=
  v.passed? = none

mutual

def tokens : Value → List Token
  | .scalar s => [.scalar s]
  | .array items _ => .beginArray :: ((itemTokens items).tail ++ [.endArray])
  | .object fields _ => .beginObject :: ((fieldTokens fields).tail ++ [.endObject])
  | .absent => []

def itemTokens : List Value → List Token
  | [] => []
  | v :: items => .comma :: (tokens v ++ itemTokens items)

def fieldTokens : List (Quoted × Value) → List Token
  | [] => []
  | (key, v) :: fields => .comma :: .scalar (.text key) :: .colon :: (tokens v ++ fieldTokens fields)

end

structure WrittenAs (v : Value) (source : Text) : Prop where
  whole : v.IsWhole
  spaced : Spaced v.tokens source

section Whole

variable {v : Value} {items more : List Value} {fields others : List (Quoted × Value)}
  {fault : Option Fault}

theorem itemsPassed?_eq_none_iff : itemsPassed? items = none ↔ ∀ v ∈ items, v.IsWhole := by
  induction items with
  | nil => simp [itemsPassed?]
  | cons v items ih => rw [itemsPassed?, Option.or_eq_none_iff, ih, List.forall_mem_cons, IsWhole]

theorem fieldsPassed?_eq_none_iff :
    fieldsPassed? fields = none ↔ ∀ field ∈ fields, field.1.fault = none ∧ field.2.IsWhole := by
  induction fields with
  | nil => simp [fieldsPassed?]
  | cons field fields ih =>
    rw [fieldsPassed?, Option.or_eq_none_iff, Option.or_eq_none_iff, ih, List.forall_mem_cons, IsWhole]

theorem isWhole_array :
    (Value.array items fault).IsWhole ↔ (∀ v ∈ items, v.IsWhole) ∧ fault = none := by
  rw [IsWhole, passed?, Option.or_eq_none_iff, itemsPassed?_eq_none_iff]

theorem isWhole_object : (Value.object fields fault).IsWhole ↔
    (∀ field ∈ fields, field.1.fault = none ∧ field.2.IsWhole) ∧ fault = none := by
  rw [IsWhole, passed?, Option.or_eq_none_iff, fieldsPassed?_eq_none_iff]

theorem not_isWhole_absent : ¬ absent.IsWhole := by
  rintro ⟨⟩

end Whole

theorem apart_cons {token : Token} {ts : List Token} (h : token.isScalar = false) (ha : Apart ts) :
    Apart (token :: ts) :=
  ⟨fun hs => absurd (h.symm.trans hs) Bool.false_ne_true, ha⟩

def Follows (rest : List Token) : Prop :=
  Apart rest ∧ ∀ token ∈ rest.head?, token.isScalar = false

theorem follows_cons {token : Token} {ts : List Token} (h : token.isScalar = false) (ha : Apart ts) :
    Follows (token :: ts) := by
  refine ⟨apart_cons h ha, ?_⟩
  rintro _ ⟨⟩
  exact h

mutual

theorem apart_tokens {rest : List Token} (hrest : Follows rest) : (v : Value) → Apart (v.tokens ++ rest)
  | .scalar s => ⟨fun _ => hrest.2, hrest.1⟩
  | .absent => hrest.1
  | .array [] _ => apart_cons rfl (apart_cons rfl hrest.1)
  | .array (v :: items) fault => by
    have hend : Follows (.endArray :: rest) := follows_cons rfl hrest.1
    have hitems := apart_tokens (follows_itemTokens hend items) v
    simp only [tokens, itemTokens, List.tail_cons, List.cons_append, List.append_assoc]
    exact apart_cons rfl hitems
  | .object [] _ => apart_cons rfl (apart_cons rfl hrest.1)
  | .object ((key, v) :: fields) fault => by
    have hend : Follows (.endObject :: rest) := follows_cons rfl hrest.1
    have hfields := apart_tokens (follows_fieldTokens hend fields) v
    have hcolon : Follows (.colon :: _) := follows_cons rfl hfields
    simp only [tokens, fieldTokens, List.tail_cons, List.cons_append, List.append_assoc]
    exact apart_cons rfl ⟨fun _ => hcolon.2, hcolon.1⟩

theorem follows_itemTokens {rest : List Token} (hrest : Follows rest) :
    (items : List Value) → Follows (itemTokens items ++ rest)
  | [] => hrest
  | v :: items => by
    have hitems := apart_tokens (follows_itemTokens hrest items) v
    rw [itemTokens, List.cons_append, List.append_assoc]
    exact follows_cons rfl hitems

theorem follows_fieldTokens {rest : List Token} (hrest : Follows rest) :
    (fields : List (Quoted × Value)) → Follows (fieldTokens fields ++ rest)
  | [] => hrest
  | (key, v) :: fields => by
    have hfields := apart_tokens (follows_fieldTokens hrest fields) v
    have hcolon : Follows (.colon :: _) := follows_cons rfl hfields
    simp only [fieldTokens, List.cons_append, List.append_assoc]
    exact follows_cons rfl ⟨fun _ => hcolon.2, hcolon.1⟩

end

open build (leave)

def Due.TakesValue (due : Due) : Prop :=
  due = .value ∨ due = .valueOrEnd

section Build

variable {due : Due} {frames : List Frame} {rest : List Token}

theorem build_scalar (h : due.TakesValue) (s : Scalar) :
    build due frames (.scalar s :: rest) = leave (.scalar s) frames rest := by
  rcases h with rfl | rfl
  · cases frames <;> simp only [build, leave]
  · cases frames <;> simp only [build, leave]

theorem build_beginArray (h : due.TakesValue) :
    build due frames (.beginArray :: rest) = build .valueOrEnd (.array [] :: frames) rest := by
  rcases h with rfl | rfl <;> rw [build]

theorem build_beginObject (h : due.TakesValue) :
    build due frames (.beginObject :: rest) = build .keyOrEnd (.object [] :: frames) rest := by
  rcases h with rfl | rfl <;> rw [build]

theorem leave_array (v : Value) (items : List Value) :
    leave v (.array items :: frames) rest = build .commaOrEnd (.array (items ++ [v]) :: frames) rest := by
  rw [leave, Frame.add]

theorem leave_entry (v : Value) (fields : List (Quoted × Value)) (key : Quoted) :
    leave v (.entry fields key :: frames) rest =
      build .commaOrEnd (.object (fields ++ [(key, v)]) :: frames) rest := by
  rw [leave, Frame.add]

mutual

theorem build_tokens {due : Due} (hdue : due.TakesValue) (frames : List Frame) (rest : List Token) :
    (v : Value) → v.IsWhole → build due frames (v.tokens ++ rest) = leave v frames rest
  | .scalar s, _ => build_scalar hdue s
  | .absent, h => absurd h not_isWhole_absent
  | .array [] fault, h => by
    obtain ⟨-, rfl⟩ := isWhole_array.1 h
    simp only [tokens, itemTokens, List.tail_nil, List.nil_append, List.cons_append]
    rw [build_beginArray hdue, build]
  | .array (v :: items) fault, h => by
    obtain ⟨hwhole, rfl⟩ := isWhole_array.1 h
    rw [List.forall_mem_cons] at hwhole
    simp only [tokens, itemTokens, List.tail_cons, List.cons_append, List.append_assoc]
    rw [build_beginArray hdue, build_tokens (.inr rfl) _ _ v hwhole.1, leave_array]
    exact build_itemTokens frames rest [v] items hwhole.2
  | .object [] fault, h => by
    obtain ⟨-, rfl⟩ := isWhole_object.1 h
    simp only [tokens, fieldTokens, List.tail_nil, List.nil_append, List.cons_append]
    rw [build_beginObject hdue, build]
  | .object ((key, v) :: fields) fault, h => by
    obtain ⟨hwhole, rfl⟩ := isWhole_object.1 h
    rw [List.forall_mem_cons] at hwhole
    simp only [tokens, fieldTokens, List.tail_cons, List.cons_append, List.append_assoc]
    rw [build_beginObject hdue, build, build, build_tokens (.inl rfl) _ _ v hwhole.1.2, leave_entry]
    exact build_fieldTokens frames rest [(key, v)] fields hwhole.2

theorem build_itemTokens (frames : List Frame) (rest : List Token) (before : List Value) :
    (items : List Value) → (∀ v ∈ items, v.IsWhole) →
      build .commaOrEnd (.array before :: frames) (itemTokens items ++ .endArray :: rest) =
        leave (.array (before ++ items) none) frames rest
  | [], _ => by rw [itemTokens, List.nil_append, build, List.append_nil]
  | v :: items, h => by
    rw [List.forall_mem_cons] at h
    rw [itemTokens, List.cons_append, List.append_assoc, build, build_tokens (.inl rfl) _ _ v h.1,
      leave_array, build_itemTokens frames rest _ items h.2, List.append_assoc, List.singleton_append]

theorem build_fieldTokens (frames : List Frame) (rest : List Token) (before : List (Quoted × Value)) :
    (fields : List (Quoted × Value)) → (∀ field ∈ fields, field.1.fault = none ∧ field.2.IsWhole) →
      build .commaOrEnd (.object before :: frames) (fieldTokens fields ++ .endObject :: rest) =
        leave (.object (before ++ fields) none) frames rest
  | [], _ => by rw [fieldTokens, List.nil_append, build, List.append_nil]
  | (key, v) :: fields, h => by
    rw [List.forall_mem_cons] at h
    rw [fieldTokens, List.cons_append, List.cons_append, List.cons_append, List.append_assoc, build, build,
      build, build_tokens (.inl rfl) _ _ v h.1.2, leave_entry, build_fieldTokens frames rest _ fields h.2,
      List.append_assoc, List.singleton_append]

end

end Build

def Frame.Awaits : Frame → Prop
  | .array _ => True
  | .object _ => False
  | .entry _ _ => True

theorem forall_awaits_array {frames : List Frame} (hf : ∀ frame ∈ frames, frame.Awaits)
    (items : List Value) : ∀ frame ∈ Frame.array items :: frames, frame.Awaits :=
  List.forall_mem_cons.2 ⟨trivial, hf⟩

theorem forall_awaits_entry {frames : List Frame} (hf : ∀ frame ∈ frames, frame.Awaits)
    (fields : List (Quoted × Value)) (key : Quoted) :
    ∀ frame ∈ Frame.entry fields key :: frames, frame.Awaits :=
  List.forall_mem_cons.2 ⟨trivial, hf⟩

section Stop

variable {v : Value} {due : Due} {frame : Frame} {frames : List Frame} {fault : Fault}

theorem not_isWhole_close : ¬ (frame.close (some fault)).IsWhole := by
  intro h
  cases frame with
  | array => cases (isWhole_array.1 h).2
  | object | entry => cases (isWhole_object.1 h).2

theorem isWhole_of_add (hf : frame.Awaits) (h : ((frame.add v).close none).IsWhole) : v.IsWhole := by
  cases frame with
  | array items => exact (isWhole_array.1 h).1 v (by simp)
  | object => exact hf.elim
  | entry fields key => exact ((isWhole_object.1 h).1 (key, v) (by simp)).2

theorem isWhole_of_wrap (hf : ∀ frame ∈ frames, frame.Awaits) (h : (wrap v frames).IsWhole) :
    v.IsWhole := by
  induction frames generalizing v with
  | nil => exact h
  | cons frame frames ih =>
    rw [List.forall_mem_cons] at hf
    exact isWhole_of_add hf.1 (ih hf.2 h)

theorem not_isWhole_fault :
    ¬ (if fault = .ended then Value.absent else .scalar (.broken fault fault)).IsWhole := by
  split_ifs
  · exact not_isWhole_absent
  · rintro ⟨⟩

theorem not_isWhole_stop_value (hdue : due.TakesValue ∨ due = .colon)
    (hf : ∀ frame ∈ frames, frame.Awaits) : ¬ (stop due fault frames).IsWhole := by
  intro h
  cases frames with
  | nil => exact not_isWhole_fault h
  | cons frame frames =>
    rcases hdue with (rfl | rfl) | rfl
    · exact not_isWhole_fault (isWhole_of_wrap hf h)
    · cases fault with
      | ended => exact not_isWhole_close (isWhole_of_wrap (List.forall_mem_cons.1 hf).2 h)
      | notJson | shape => cases (isWhole_of_wrap hf h : (Value.scalar (.broken _ _)).IsWhole)
    · exact not_isWhole_fault (isWhole_of_wrap hf h)

theorem not_isWhole_stop_end (hdue : due = .commaOrEnd ∨ due = .keyOrEnd)
    (hf : ∀ frame ∈ frames, frame.Awaits) : ¬ (stop due fault (frame :: frames)).IsWhole := by
  intro h
  rcases hdue with rfl | rfl
  · exact not_isWhole_close (isWhole_of_wrap hf h)
  · exact not_isWhole_close (isWhole_of_wrap hf h)

theorem not_isWhole_stop_key {fields : List (Quoted × Value)} (hf : ∀ frame ∈ frames, frame.Awaits) :
    ¬ (stop .key fault (.object fields :: frames)).IsWhole := by
  intro h
  have hkey := (isWhole_object.1 (isWhole_of_wrap hf h)).1 (⟨[], some fault⟩, .absent) (by simp)
  cases hkey.1

end Stop

section Steps

variable {due : Due} {frames : List Frame} {ts : List Token} {items : List Value}
  {fields : List (Quoted × Value)}

inductive Begins : Token → Prop
  | scalar (s : Scalar) : Begins (.scalar s)
  | beginArray : Begins .beginArray
  | beginObject : Begins .beginObject

theorem begins_of_build (hdue : due.TakesValue) (hf : ∀ frame ∈ frames, frame.Awaits)
    (h : (build due frames ts).1.IsWhole) :
    ∃ token rest, ts = token :: rest ∧ (Begins token ∨ due = .valueOrEnd ∧ token = .endArray) := by
  have hstop (fault : Fault) : ¬ (stop due fault frames).IsWhole :=
    not_isWhole_stop_value (.inl hdue) hf
  cases ts with
  | nil => exact absurd (by rwa [build] at h) (hstop .ended)
  | cons token ts =>
    refine ⟨token, ts, rfl, ?_⟩
    cases token with
    | scalar s => exact .inl (.scalar s)
    | beginArray => exact .inl .beginArray
    | beginObject => exact .inl .beginObject
    | endArray =>
      rcases hdue with rfl | rfl
      · exact absurd (by simpa only [build] using h) (hstop .notJson)
      · exact .inr ⟨rfl, rfl⟩
    | endObject | comma | colon =>
      rcases hdue with rfl | rfl
      · exact absurd (by simpa only [build] using h) (hstop .notJson)
      · exact absurd (by simpa only [build] using h) (hstop .notJson)

theorem comma_or_end_of_build_array (hf : ∀ frame ∈ frames, frame.Awaits)
    (h : (build .commaOrEnd (.array items :: frames) ts).1.IsWhole) :
    ∃ rest, ts = .comma :: rest ∨ ts = .endArray :: rest := by
  have hstop (fault : Fault) : ¬ (stop .commaOrEnd fault (.array items :: frames)).IsWhole :=
    not_isWhole_stop_end (.inl rfl) hf
  cases ts with
  | nil => exact absurd (by rwa [build] at h) (hstop .ended)
  | cons token rest =>
    cases token with
    | comma => exact ⟨rest, .inl rfl⟩
    | endArray => exact ⟨rest, .inr rfl⟩
    | scalar | beginArray | beginObject | endObject | colon =>
      exact absurd (by simpa only [build] using h) (hstop .notJson)

theorem comma_or_end_of_build_object (hf : ∀ frame ∈ frames, frame.Awaits)
    (h : (build .commaOrEnd (.object fields :: frames) ts).1.IsWhole) :
    ∃ rest, ts = .comma :: rest ∨ ts = .endObject :: rest := by
  have hstop (fault : Fault) : ¬ (stop .commaOrEnd fault (.object fields :: frames)).IsWhole :=
    not_isWhole_stop_end (.inl rfl) hf
  cases ts with
  | nil => exact absurd (by rwa [build] at h) (hstop .ended)
  | cons token rest =>
    cases token with
    | comma => exact ⟨rest, .inl rfl⟩
    | endObject => exact ⟨rest, .inr rfl⟩
    | scalar | beginArray | beginObject | endArray | colon =>
      exact absurd (by simpa only [build] using h) (hstop .notJson)

theorem colon_of_build {key : Quoted} (hf : ∀ frame ∈ frames, frame.Awaits)
    (h : (build .colon (.entry fields key :: frames) ts).1.IsWhole) : ∃ rest, ts = .colon :: rest := by
  have hstop (fault : Fault) : ¬ (stop .colon fault (.entry fields key :: frames)).IsWhole :=
    not_isWhole_stop_value (.inr rfl) (forall_awaits_entry hf fields key)
  cases ts with
  | nil => exact absurd (by rwa [build] at h) (hstop .ended)
  | cons token rest =>
    cases token with
    | colon => exact ⟨rest, rfl⟩
    | scalar | beginArray | beginObject | endArray | endObject | comma =>
      exact absurd (by simpa only [build] using h) (hstop .notJson)

theorem key_or_end_of_build (hdue : due = .key ∨ due = .keyOrEnd) (hf : ∀ frame ∈ frames, frame.Awaits)
    (h : (build due (.object fields :: frames) ts).1.IsWhole) :
    (∃ key rest, ts = .scalar (.text key) :: .colon :: rest) ∨
      due = .keyOrEnd ∧ ∃ rest, ts = .endObject :: rest := by
  have hstop (fault : Fault) : ¬ (stop due fault (.object fields :: frames)).IsWhole := by
    rcases hdue with rfl | rfl
    · exact not_isWhole_stop_key hf
    · exact not_isWhole_stop_end (.inr rfl) hf
  cases ts with
  | nil => exact absurd (by rwa [build] at h) (hstop .ended)
  | cons token ts =>
    cases token with
    | endObject =>
      rcases hdue with rfl | rfl
      · exact absurd (by simpa only [build] using h) (hstop .notJson)
      · exact .inr ⟨rfl, ts, rfl⟩
    | beginArray | beginObject | endArray | comma | colon =>
      rcases hdue with rfl | rfl
      · exact absurd (by simpa only [build] using h) (hstop .notJson)
      · exact absurd (by simpa only [build] using h) (hstop .notJson)
    | scalar s =>
      cases s with
      | null | bool | number | broken =>
        rcases hdue with rfl | rfl
        · exact absurd (by simpa only [build] using h) (hstop .notJson)
        · exact absurd (by simpa only [build] using h) (hstop .notJson)
      | text key =>
        have hcolon : (build .colon (.entry fields key :: frames) ts).1.IsWhole := by
          rcases hdue with rfl | rfl <;> rwa [build] at h
        obtain ⟨rest, rfl⟩ := colon_of_build hf hcolon
        exact .inl ⟨key, rest, rfl⟩

end Steps

-- Each function takes words off the front, so that the number of words left carries all of them.
mutual

theorem exists_of_build {due : Due} {frames : List Frame} {ts : List Token} (hdue : due.TakesValue)
    (hf : ∀ frame ∈ frames, frame.Awaits) (hend : due = .valueOrEnd → ∀ rest, ts ≠ .endArray :: rest)
    (h : (build due frames ts).1.IsWhole) :
    ∃ v rest, ts = v.tokens ++ rest ∧ build due frames ts = leave v frames rest := by
  obtain ⟨token, ts, rfl, hbegins | ⟨hopen, rfl⟩⟩ := begins_of_build hdue hf h
  · cases hbegins with
    | scalar s => exact ⟨.scalar s, ts, rfl, build_scalar hdue s⟩
    | beginArray =>
      rw [build_beginArray hdue] at h ⊢
      obtain ⟨items, rest, rfl, hb⟩ := array_of_build hf h
      exact ⟨.array items none, rest, by simp [tokens], hb⟩
    | beginObject =>
      rw [build_beginObject hdue] at h ⊢
      obtain ⟨fields, rest, rfl, hb⟩ := object_of_build hf h
      exact ⟨.object fields none, rest, by simp [tokens], hb⟩
  · exact absurd rfl (hend hopen ts)
termination_by 2 * ts.length

theorem array_of_build {frames : List Frame} {ts : List Token}
    (hf : ∀ frame ∈ frames, frame.Awaits)
    (h : (build .valueOrEnd (.array [] :: frames) ts).1.IsWhole) :
    ∃ items rest, ts = (itemTokens items).tail ++ .endArray :: rest ∧
      build .valueOrEnd (.array [] :: frames) ts = leave (.array items none) frames rest := by
  -- The bracket may close at once only here: behind a comma there has to be a value.
  by_cases hend : ∃ rest, ts = .endArray :: rest
  · obtain ⟨rest, rfl⟩ := hend
    exact ⟨[], rest, rfl, by rw [build]⟩
  · obtain ⟨v, rest, rfl, hb⟩ :=
      exists_of_build (.inr rfl) (forall_awaits_array hf []) (fun _ => not_exists.1 hend) h
    rw [hb, leave_array] at h ⊢
    obtain ⟨items, rest, rfl, hb⟩ := items_of_build hf h
    exact ⟨v :: items, rest, by simp [itemTokens], hb⟩
termination_by 2 * ts.length + 1

theorem items_of_build {frames : List Frame} {ts : List Token} {before : List Value}
    (hf : ∀ frame ∈ frames, frame.Awaits)
    (h : (build .commaOrEnd (.array before :: frames) ts).1.IsWhole) :
    ∃ items rest, ts = itemTokens items ++ .endArray :: rest ∧
      build .commaOrEnd (.array before :: frames) ts =
        leave (.array (before ++ items) none) frames rest := by
  obtain ⟨ts, rfl | rfl⟩ := comma_or_end_of_build_array hf h
  · rw [build] at h ⊢
    obtain ⟨v, rest, rfl, hb⟩ := exists_of_build (.inl rfl) (forall_awaits_array hf before) nofun h
    rw [hb, leave_array] at h ⊢
    obtain ⟨items, rest, rfl, hb⟩ := items_of_build hf h
    exact ⟨v :: items, rest, by simp [itemTokens], by rw [hb, List.append_assoc, List.singleton_append]⟩
  · exact ⟨[], ts, rfl, by rw [build, List.append_nil]⟩
termination_by 2 * ts.length

theorem object_of_build {frames : List Frame} {ts : List Token}
    (hf : ∀ frame ∈ frames, frame.Awaits)
    (h : (build .keyOrEnd (.object [] :: frames) ts).1.IsWhole) :
    ∃ fields rest, ts = (fieldTokens fields).tail ++ .endObject :: rest ∧
      build .keyOrEnd (.object [] :: frames) ts = leave (.object fields none) frames rest := by
  obtain ⟨key, ts, rfl⟩ | ⟨-, rest, rfl⟩ := key_or_end_of_build (.inr rfl) hf h
  · rw [build, build] at h ⊢
    obtain ⟨v, rest, rfl, hb⟩ := exists_of_build (.inl rfl) (forall_awaits_entry hf [] key) nofun h
    rw [hb, leave_entry] at h ⊢
    obtain ⟨fields, rest, rfl, hb⟩ := fields_of_build hf h
    exact ⟨(key, v) :: fields, rest, by simp [fieldTokens], hb⟩
  · exact ⟨[], rest, rfl, by rw [build]⟩
termination_by 2 * ts.length

theorem fields_of_build {frames : List Frame} {ts : List Token} {before : List (Quoted × Value)}
    (hf : ∀ frame ∈ frames, frame.Awaits)
    (h : (build .commaOrEnd (.object before :: frames) ts).1.IsWhole) :
    ∃ fields rest, ts = fieldTokens fields ++ .endObject :: rest ∧
      build .commaOrEnd (.object before :: frames) ts =
        leave (.object (before ++ fields) none) frames rest := by
  obtain ⟨ts, rfl | rfl⟩ := comma_or_end_of_build_object hf h
  · rw [build] at h ⊢
    obtain ⟨key, ts, rfl⟩ | ⟨⟨⟩, -⟩ := key_or_end_of_build (.inl rfl) hf h
    rw [build, build] at h ⊢
    obtain ⟨v, rest, rfl, hb⟩ := exists_of_build (.inl rfl) (forall_awaits_entry hf before key) nofun h
    rw [hb, leave_entry] at h ⊢
    obtain ⟨fields, rest, rfl, hb⟩ := fields_of_build hf h
    exact ⟨(key, v) :: fields, rest, by simp [fieldTokens],
      by rw [hb, List.append_assoc, List.singleton_append]⟩
  · exact ⟨[], ts, rfl, by rw [build, List.append_nil]⟩
termination_by 2 * ts.length

end

mutual

theorem isWhole_of_mem_tokens : (v : Value) → v.IsWhole → ∀ token ∈ v.tokens, token.IsWhole
  | .scalar s, h => List.forall_mem_singleton.2 h
  | .absent, h => absurd h not_isWhole_absent
  | .array items fault, h => by
    have hitems := isWhole_of_mem_itemTokens items (isWhole_array.1 h).1
    simp only [tokens, List.forall_mem_cons, List.forall_mem_append]
    exact ⟨trivial, fun token ht => hitems token (List.mem_of_mem_tail ht), trivial, nofun⟩
  | .object fields fault, h => by
    have hfields := isWhole_of_mem_fieldTokens fields (isWhole_object.1 h).1
    simp only [tokens, List.forall_mem_cons, List.forall_mem_append]
    exact ⟨trivial, fun token ht => hfields token (List.mem_of_mem_tail ht), trivial, nofun⟩

theorem isWhole_of_mem_itemTokens :
    (items : List Value) → (∀ v ∈ items, v.IsWhole) → ∀ token ∈ itemTokens items, token.IsWhole
  | [], _ => nofun
  | v :: items, h => by
    rw [List.forall_mem_cons] at h
    simp only [itemTokens, List.forall_mem_cons, List.forall_mem_append]
    exact ⟨trivial, isWhole_of_mem_tokens v h.1, isWhole_of_mem_itemTokens items h.2⟩

theorem isWhole_of_mem_fieldTokens : (fields : List (Quoted × Value)) →
    (∀ field ∈ fields, field.1.fault = none ∧ field.2.IsWhole) →
      ∀ token ∈ fieldTokens fields, token.IsWhole
  | [], _ => nofun
  | (key, v) :: fields, h => by
    rw [List.forall_mem_cons] at h
    simp only [fieldTokens, List.forall_mem_cons, List.forall_mem_append]
    exact ⟨trivial, h.1.1, trivial, isWhole_of_mem_tokens v h.1.2,
      isWhole_of_mem_fieldTokens fields h.2⟩

end

theorem build_of_writtenAs {v : Value} {source : Text} (h : v.WrittenAs source) :
    build .value [] (Json.tokens source) = (v, []) := by
  have hend : Follows [] := ⟨trivial, nofun⟩
  have hbuild := build_tokens (.inl rfl) [] [] v h.whole
  have hapart := apart_tokens hend v
  rw [List.append_nil] at hbuild hapart
  rw [tokens_of_spaced h.spaced hapart, hbuild, leave]

theorem writtenAs_of_build {v : Value} {source : Text}
    (h : build .value [] (Json.tokens source) = (v, [])) (hv : v.IsWhole) : v.WrittenAs source := by
  obtain ⟨found, rest, htokens, hb⟩ :=
    exists_of_build (.inl rfl) (List.forall_mem_nil _) nofun (by rwa [h])
  rw [h, leave] at hb
  cases hb
  rw [List.append_nil] at htokens
  refine ⟨hv, htokens ▸ spaced_tokens ?_⟩
  rw [htokens]
  exact isWhole_of_mem_tokens v hv

end Value

namespace Reader

variable {α : Type} {reader : Reader α} {v : Value} {source : Text} {a : α}

theorem run_of_writtenAs (h : v.WrittenAs source) : run reader source = reader maxDepth v := by
  rw [run, Value.build_of_writtenAs h]
  exact bind_pure (reader maxDepth v)

theorem run_eq_ok_iff (hreader : ∀ v a, reader maxDepth v = .ok a → v.IsWhole) :
    run reader source = .ok a ↔ ∃ v, v.WrittenAs source ∧ reader maxDepth v = .ok a := by
  constructor
  · intro h
    cases hbuild : Value.build .value [] (tokens source) with
    | mk v rest =>
      rw [run, hbuild] at h
      dsimp only at h
      cases hread : reader maxDepth v with
      | error fault =>
        rw [hread] at h
        cases h
      | ok found =>
        rw [hread] at h
        cases rest with
        | cons => cases h
        | nil =>
          cases h
          exact ⟨v, Value.writtenAs_of_build hbuild (hreader v a hread), hread⟩
  · rintro ⟨v, hv, hread⟩
    rw [run_of_writtenAs hv, hread]

end Reader
end Docmark.Json
