import Mathlib.Data.List.Chain
import Mathlib.Data.List.TakeWhile
import Docmark.Proofs.BaseNames
import Docmark.Proofs.TypeTexts

/-!
What is taken off a generic name as its arity: every run of backticks with the run of digits right
behind it, and nothing else. It makes no difference whether that is done before the name is cut to its
last segment or afterwards.
-/

namespace Docmark

@[ext]
structure MarkedStretch where
  ticks : Text
  digits : Text
  kept : Text
  ticks_ne_nil : ticks ≠ []
  ticks_only : ∀ c ∈ ticks, c = '\x60'
  digits_only : ∀ c ∈ digits, c.isDigit = true
  digits_end : ∀ c ∈ kept.head?, c.isDigit = false
  kept_plain : '\x60' ∉ kept

namespace MarkedStretch

def text (s : MarkedStretch) : Text :=
  s.ticks ++ (s.digits ++ s.kept)

def Apart (stretches : List MarkedStretch) : Prop :=
  stretches.IsChain fun s _ => s.digits ++ s.kept ≠ []

def opening (t : Text) (h : '\x60' ∉ t) : MarkedStretch where
  ticks := ['\x60']
  digits := t.takeWhile Char.isDigit
  kept := t.dropWhile Char.isDigit
  ticks_ne_nil := List.cons_ne_nil _ _
  ticks_only := fun _ => List.mem_singleton.1
  digits_only := fun _ => List.mem_takeWhile_imp
  digits_end := fun c hc => by
    have hend := List.head?_dropWhile_not Char.isDigit t
    rw [hc] at hend
    simpa using hend
  kept_plain := fun hc => h ((List.dropWhile_sublist _).subset hc)

theorem opening_behind (t : Text) (h : '\x60' ∉ t) : (opening t h).digits ++ (opening t h).kept = t :=
  List.takeWhile_append_dropWhile

def lengthened (s : MarkedStretch) : MarkedStretch :=
  { s with
    ticks := '\x60' :: s.ticks
    ticks_ne_nil := List.cons_ne_nil _ _
    ticks_only := List.forall_mem_cons.2 ⟨rfl, s.ticks_only⟩ }

variable {s : MarkedStretch} {stretches : List MarkedStretch}

theorem head_text_append (t : Text) : ∀ c ∈ (s.text ++ t).head?, c = '\x60' := by
  obtain ⟨tick, ticks, hticks⟩ := List.exists_cons_of_ne_nil s.ticks_ne_nil
  intro c hc
  rw [text, hticks] at hc
  cases hc
  exact s.ticks_only tick (hticks ▸ List.mem_cons_self)

theorem head_texts : ∀ c ∈ (stretches.flatMap text).head?, c = '\x60' := by
  cases stretches with
  | nil => rintro c ⟨⟩
  | cons s rest => exact List.flatMap_cons ▸ head_text_append _

theorem not_isDigit_behind :
    ∀ c ∈ (s.kept ++ stretches.flatMap text).head?, c.isDigit = false := by
  intro c hc
  cases hkept : s.kept with
  | nil =>
    rw [hkept] at hc
    rw [head_texts c hc]
    rfl
  | cons d kept =>
    rw [hkept] at hc
    exact s.digits_end c (hkept ▸ hc)

theorem not_tick_behind (hapart : Apart (s :: stretches)) :
    ∀ c ∈ (s.digits ++ s.kept ++ stretches.flatMap text).head?, (c == '\x60') = false := by
  -- Behind its backticks a stretch goes on with something else, unless it is the last one.
  intro c hc
  cases hrest : s.digits ++ s.kept with
  | nil =>
    cases stretches with
    | nil =>
      rw [hrest] at hc
      cases hc
    | cons o rest => exact absurd hrest ((List.isChain_cons.1 hapart).1 o rfl)
  | cons d more =>
    have hd : d ∈ s.digits ++ s.kept := hrest ▸ List.mem_cons_self
    rw [hrest] at hc
    cases hc
    rw [beq_eq_false_iff_ne]
    rintro rfl
    rcases List.mem_append.1 hd with hd | hd
    · exact absurd (s.digits_only _ hd) (by decide)
    · exact s.kept_plain hd

theorem texts_ne_nil (s : MarkedStretch) (stretches : List MarkedStretch) :
    (s :: stretches).flatMap text ≠ [] := by
  simp [text, s.ticks_ne_nil]

theorem text_inj {o : MarkedStretch} {others : List MarkedStretch}
    (hs : Apart (s :: stretches)) (ho : Apart (o :: others))
    (h : (s :: stretches).flatMap text = (o :: others).flatMap text) :
    s.ticks = o.ticks ∧ s.digits = o.digits ∧
      s.kept ++ stretches.flatMap text = o.kept ++ others.flatMap text := by
  have hticks (s : MarkedStretch) : ∀ c ∈ s.ticks, (c == '\x60') = true :=
    fun c hc => beq_iff_eq.2 (s.ticks_only c hc)
  rw [List.flatMap_cons, List.flatMap_cons, text, text, List.append_assoc s.ticks,
    List.append_assoc o.ticks] at h
  obtain ⟨ht, hrest⟩ := Text.append_inj_of_run (hticks s) (not_tick_behind hs) (hticks o)
    (not_tick_behind ho) h
  rw [List.append_assoc s.digits, List.append_assoc o.digits] at hrest
  obtain ⟨hd, hkept⟩ := Text.append_inj_of_run s.digits_only not_isDigit_behind o.digits_only
    not_isDigit_behind hrest
  exact ⟨ht, hd, hkept⟩

theorem stripArityFrom_run {run : Text} (h : ∀ c ∈ run, c = '\x60' ∨ c.isDigit = true) (t : Text) :
    stripArityFrom true (run ++ t) = stripArityFrom true t := by
  induction run with
  | nil => rfl
  | cons c run ih =>
    rw [List.forall_mem_cons] at h
    rw [List.cons_append, stripArityFrom]
    rcases h.1 with hc | hc
    · rw [if_pos hc, ih h.2]
    · rw [hc, Bool.and_self, if_pos rfl, ite_self, ih h.2]

theorem stripArityFrom_of_not_isDigit {t : Text} (h : ∀ c ∈ t.head?, c.isDigit = false) :
    stripArityFrom true t = stripArity t := by
  cases t with
  | nil => rfl
  | cons c t => rw [stripArity, stripArityFrom, stripArityFrom, h c rfl, Bool.and_false, Bool.and_false]

theorem stripArity_texts (s : MarkedStretch) (stretches : List MarkedStretch) :
    stripArity ((s :: stretches).flatMap text) = stripArity (s.kept ++ stretches.flatMap text) := by
  obtain ⟨tick, ticks, hticks⟩ := List.exists_cons_of_ne_nil s.ticks_ne_nil
  have honly := s.ticks_only
  rw [hticks, List.forall_mem_cons] at honly
  have hrun : ∀ c ∈ ticks ++ s.digits, c = '\x60' ∨ c.isDigit = true := by
    intro c hc
    rcases List.mem_append.1 hc with hc | hc
    · exact .inl (honly.2 c hc)
    · exact .inr (s.digits_only c hc)
  calc stripArity ((s :: stretches).flatMap text)
    _ = stripArity (tick :: (ticks ++ s.digits ++ (s.kept ++ stretches.flatMap text))) := by
      simp only [List.flatMap_cons, text, hticks, List.cons_append, List.append_assoc]
    _ = stripArityFrom true (ticks ++ s.digits ++ (s.kept ++ stretches.flatMap text)) := if_pos honly.1
    _ = stripArityFrom true (s.kept ++ stretches.flatMap text) := stripArityFrom_run hrun _
    _ = stripArity (s.kept ++ stretches.flatMap text) :=
      stripArityFrom_of_not_isDigit not_isDigit_behind

end MarkedStretch

/-- A name as what stands in front of its first marker, and its markers with what follows each. -/
structure MarkedName where
  front : Text
  stretches : List MarkedStretch
  front_plain : '\x60' ∉ front
  apart : MarkedStretch.Apart stretches

namespace MarkedName

def text (parts : MarkedName) : Text :=
  parts.front ++ parts.stretches.flatMap MarkedStretch.text

def bare (parts : MarkedName) : Text :=
  parts.front ++ parts.stretches.flatMap MarkedStretch.kept

theorem not_mem_bare (parts : MarkedName) : '\x60' ∉ parts.bare := by
  rw [bare, List.mem_append, List.mem_flatMap, not_or]
  exact ⟨parts.front_plain, fun ⟨s, _, hs⟩ => s.kept_plain hs⟩

theorem exists_text_tick (parts : MarkedName) :
    ∃ more : MarkedName, more.text = '\x60' :: parts.text := by
  obtain ⟨front, stretches, hfront, hapart⟩ := parts
  by_cases hjoin : front = [] ∧ stretches ≠ []
  · obtain ⟨rfl, hne⟩ := hjoin
    obtain ⟨s, rest, rfl⟩ := List.exists_cons_of_ne_nil hne
    exact ⟨⟨[], s.lengthened :: rest, hfront, List.isChain_cons.2 (List.isChain_cons.1 hapart)⟩, rfl⟩
  · have hchain : MarkedStretch.Apart (MarkedStretch.opening front hfront :: stretches) := by
      refine List.isChain_cons.2 ⟨?_, hapart⟩
      intro s hs hnil
      rw [MarkedStretch.opening_behind] at hnil
      exact hjoin ⟨hnil, List.ne_nil_of_mem (List.mem_of_mem_head? hs)⟩
    refine ⟨⟨[], _, List.not_mem_nil, hchain⟩, ?_⟩
    simp only [text, List.flatMap_cons, MarkedStretch.text, MarkedStretch.opening_behind]
    rfl

theorem exists_text (name : Text) : ∃ parts : MarkedName, parts.text = name := by
  induction name with
  | nil => exact ⟨⟨[], [], List.not_mem_nil, .nil⟩, rfl⟩
  | cons c name ih =>
    obtain ⟨parts, rfl⟩ := ih
    by_cases hc : c = '\x60'
    · subst hc
      exact parts.exists_text_tick
    · refine ⟨⟨c :: parts.front, parts.stretches, ?_, parts.apart⟩, rfl⟩
      rw [List.mem_cons, not_or]
      exact ⟨Ne.symm hc, parts.front_plain⟩

theorem front_eq {parts others : MarkedName} (h : parts.text = others.text) :
    parts.front = others.front ∧ parts.stretches.flatMap MarkedStretch.text =
      others.stretches.flatMap MarkedStretch.text := by
  have hplain (name : MarkedName) : ∀ c ∈ name.front, (c != '\x60') = true :=
    fun c hc => bne_iff_ne.2 fun heq => name.front_plain (heq ▸ hc)
  have hend (name : MarkedName) :
      ∀ c ∈ (name.stretches.flatMap MarkedStretch.text).head?, (c != '\x60') = false :=
    fun c hc => bne_eq_false_iff_eq.2 (MarkedStretch.head_texts c hc)
  exact Text.append_inj_of_run (hplain parts) (hend parts) (hplain others) (hend others) h

theorem unique {parts others : MarkedName} (h : parts.text = others.text) : parts = others := by
  obtain ⟨front, stretches, hfront, hapart⟩ := parts
  obtain ⟨other, more, hother, hmore⟩ := others
  induction stretches generalizing front other more with
  | nil =>
    obtain ⟨rfl, htexts⟩ := front_eq h
    cases more with
    | nil => rfl
    | cons o more => exact absurd htexts.symm (MarkedStretch.texts_ne_nil o more)
  | cons s rest ih =>
    obtain ⟨rfl, htexts⟩ := front_eq h
    cases more with
    | nil => exact absurd htexts (MarkedStretch.texts_ne_nil s rest)
    | cons o more =>
      -- What is kept of the first stretch is the front of the name that the others make up.
      obtain ⟨hticks, hdigits, hbehind⟩ := MarkedStretch.text_inj hapart hmore htexts
      have hnext := ih s.kept s.kept_plain hapart.tail o.kept more o.kept_plain hmore.tail hbehind
      injection hnext with hkept hrest
      obtain rfl : s = o := MarkedStretch.ext hticks hdigits hkept
      subst hrest
      rfl

theorem stripArity_text (parts : MarkedName) : stripArity parts.text = parts.bare := by
  obtain ⟨front, stretches, hfront, hapart⟩ := parts
  induction stretches generalizing front with
  | nil => exact (stripArity_append hfront []).trans rfl
  | cons s rest ih =>
    have hrest : stripArity (s.kept ++ rest.flatMap MarkedStretch.text) =
        s.kept ++ rest.flatMap MarkedStretch.kept :=
      ih s.kept s.kept_plain hapart.tail
    rw [text, stripArity_append hfront, MarkedStretch.stripArity_texts, hrest, bare, List.flatMap_cons]

end MarkedName

theorem not_mem_stripArity (name : Text) : '\x60' ∉ stripArity name := by
  obtain ⟨parts, rfl⟩ := MarkedName.exists_text name
  rw [parts.stripArity_text]
  exact parts.not_mem_bare

def Link.anchored (ctx : Context) (id : MemberId) : Text :=
  if ctx.isSinglePage then stripArity id.name
  else stripNamespace ctx.assembly (stripArity id.name)

theorem Link.anchorOf_eq {id : MemberId} (hk : id.kind ≠ .method) (ctx : Context) :
    anchorOf ctx id = nameAnchor (anchored ctx id) := by
  rw [anchorOf, if_neg hk]
  rfl

theorem Link.displayOf_eq {id : MemberId} (hk : id.kind ≠ .method) (ctx : Context) :
    displayOf ctx id = lastSegment (anchored ctx id) := by
  have hanchored : lastSegment (anchored ctx id) = lastSegment (stripArity id.name) := by
    rw [anchored]
    split
    · rfl
    · exact lastSegment_stripNamespace ctx.assembly _
  rw [displayOf, if_neg hk, hanchored, lastSegment_stripArity]
  rfl

theorem simpleName_eq {raw : Text} {id : MemberId} (hid : MemberId.parse? raw = some id) :
    simpleName raw =
      lastSegment (stripArity (if id.isConstructor then id.declaringType else id.name)) := by
  rw [simpleName, hid, lastSegment_stripArity]
  dsimp only
  split <;> rfl

/-- Names lose their markers and nothing else, and they lose the same ones before and after they are cut
to their last segment. -/
theorem arity_stripped_before_or_after_cutting (name : Text) :
    (∃ parts : MarkedName, parts.text = name ∧ stripArity name = parts.bare ∧
      ∀ others : MarkedName, others.text = name → others = parts) ∧
    '\x60' ∉ stripArity name ∧
    stripArity (stripArity name) = stripArity name ∧
    (∀ before behind : Text,
      stripArity (before ++ '.' :: behind) = stripArity before ++ '.' :: stripArity behind) ∧
    lastSegment (stripArity name) = stripArity (lastSegment name) ∧
    ∀ (e : Element) (raw : Text) (id : MemberId), e.name = "member" → e.attr? "name" = some raw →
      MemberId.parse? raw = some id →
      let declared := dropConstructorMarkers id.name
      let list (assembly : Text) :=
        parenthesized (parameterList assembly (id.params.getD []) (parameterNames e))
      simpleName raw =
        lastSegment (stripArity (if id.isConstructor then id.declaringType else id.name)) ∧
      (id.kind = .method → ∀ assembly,
        displayName assembly e = lastSegment (stripArity declared) ++ list assembly) ∧
      (id.kind = .property ∨ id.kind = .field → ∀ assembly, displayName assembly e =
        stripArity (lastSegment declared) ++ if parameterNames e = [] then [] else list assembly) ∧
      (id.kind ≠ .method → ∀ ctx : Context, Link.anchorOf ctx id = nameAnchor (Link.anchored ctx id) ∧
        Link.displayOf ctx id = lastSegment (Link.anchored ctx id)) := by
  refine ⟨?_, not_mem_stripArity name, stripArity_of_not_mem (not_mem_stripArity name),
    stripArityFrom_dotted false, lastSegment_stripArity name, ?_⟩
  · obtain ⟨parts, rfl⟩ := MarkedName.exists_text name
    exact ⟨parts, rfl, parts.stripArity_text, fun _ => MarkedName.unique⟩
  · intro e raw id he hname hid declared list
    have hdisplay (assembly : Text) :
        displayName assembly e = id.display assembly true (parameterNames e) := by
      rw [displayName_eq_display hname hid, decide_eq_true he]
    refine ⟨simpleName_eq hid, ?_, ?_, ?_⟩
    · intro hk assembly
      rw [hdisplay, MemberId.display_method hk, lastSegment_stripArity]
    · intro hk assembly
      rw [hdisplay, MemberId.display_segment hk (MemberId.not_mem_name hid)]
    · intro hk ctx
      exact ⟨Link.anchorOf_eq hk ctx, Link.displayOf_eq hk ctx⟩

def touchingMarkers : MarkedName where
  front := "Foo.A"
  stretches :=
    [⟨"``", "1", "", by decide, Text.forall_mem_of_all (by decide), Text.forall_mem_of_all (by decide),
        by rintro _ ⟨⟩, by decide⟩,
      ⟨"`", "2", ".3b", by decide, Text.forall_mem_of_all (by decide),
        Text.forall_mem_of_all (by decide), by rintro _ ⟨⟩; rfl, by decide⟩,
      ⟨"`", "", "", by decide, Text.forall_mem_of_all (by decide), by rintro _ ⟨⟩, by rintro _ ⟨⟩,
        by decide⟩]
  front_plain := by decide
  apart := List.IsChain.cons_cons (by decide) (List.IsChain.cons_cons (by decide) (.singleton _))

theorem arity_stripped_before_or_after_cutting_touching :
    let name : Text := "Foo.A``1`2.3b`"
    let indexer : Text := "P:" ++ name ++ "(System.Int32)"
    let method : Text := "M:" ++ name ++ "(System.Int32)"
    let ctx : Context := ⟨"Foo", ⟨.error, .perAssembly⟩, .unknown, [], none⟩
    touchingMarkers.text = name ∧ stripArity name = "Foo.A.3b" ∧ lastSegment (stripArity name) = "3b" ∧
    (∃ id, MemberId.parse? indexer = some id ∧ id.kind = .property ∧ simpleName indexer = "3b" ∧
      displayName "Foo" (memberWith indexer ["i"]) = "3b(int i)" ∧
      Link.displayOf ctx id = "3b" ∧ Link.anchorOf ctx id = "a3b") ∧
    ∃ id, MemberId.parse? method = some id ∧ id.kind = .method ∧ simpleName method = "3b" ∧
      displayName "Foo" (memberWith method ["i"]) = "3b(int i)" := by
  intro name indexer method ctx
  obtain ⟨⟨parts, -, hbare, hunique⟩, -, -, -, hsegment, hcalled⟩ :=
    arity_stripped_before_or_after_cutting name
  have hparts : touchingMarkers = parts := hunique touchingMarkers rfl
  have hstripped : stripArity name = "Foo.A.3b" := by
    rw [hbare, ← hparts]
    rfl
  have hlast : stripArity (lastSegment name) = "3b" := by
    rw [← hsegment, hstripped]
    decide
  refine ⟨rfl, hstripped, hsegment.trans hlast, ?_, ?_⟩
  · have hid : MemberId.parse? indexer = some ⟨.property, name, some ["System.Int32"], indexer⟩ := by
      decide
    obtain ⟨hsimple, -, hproperty, hlink⟩ := hcalled (memberWith indexer ["i"]) indexer _ rfl rfl hid
    obtain ⟨hanchor, hdisplay⟩ := hlink (by decide) ctx
    refine ⟨_, hid, rfl, ?_, ?_, ?_, ?_⟩
    · rw [hsimple]
      decide
    · rw [hproperty (.inl rfl)]
      decide +kernel
    · rw [hdisplay]
      decide
    · rw [hanchor]
      decide
  · have hid : MemberId.parse? method = some ⟨.method, name, some ["System.Int32"], method⟩ := by
      decide
    obtain ⟨hsimple, hmethod, -, -⟩ := hcalled (memberWith method ["i"]) method _ rfl rfl hid
    refine ⟨_, hid, rfl, ?_, ?_⟩
    · rw [hsimple]
      decide
    · rw [hmethod rfl]
      decide +kernel

end Docmark
