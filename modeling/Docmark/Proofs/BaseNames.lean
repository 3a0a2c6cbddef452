import Docmark.Page.Content
import Docmark.Proofs.Headings
import Docmark.Proofs.Identifiers

/-!
The name a member is called by in headings, in links and where its return type is told. Each place
takes the namespace, the mark of constructors and the arity off in an order of its own.
-/

namespace Docmark

theorem mem_of_mem_stripArityFrom {c : Char} {t : Text} {inMarker : Bool}
    (h : c ∈ stripArityFrom inMarker t) : c ∈ t := by
  induction t generalizing inMarker with
  | nil => exact h
  | cons d t ih =>
    rw [stripArityFrom] at h
    split at h
    · exact List.mem_cons_of_mem _ (ih h)
    · split at h
      · exact List.mem_cons_of_mem _ (ih h)
      · rcases List.mem_cons.1 h with rfl | h
        · exact List.mem_cons_self
        · exact List.mem_cons_of_mem _ (ih h)

theorem stripArity_append {front : Text} (h : '\x60' ∉ front) (t : Text) :
    stripArity (front ++ t) = front ++ stripArity t := by
  induction front with
  | nil => rfl
  | cons c front ih =>
    rw [List.mem_cons, not_or] at h
    rw [List.cons_append, stripArity, stripArityFrom, if_neg (Ne.symm h.1), Bool.false_and,
      if_neg Bool.false_ne_true]
    exact congrArg (c :: ·) (ih h.2)

theorem stripArity_of_not_mem {name : Text} (h : '\x60' ∉ name) : stripArity name = name := by
  have hwhole := stripArity_append h []
  rw [List.append_nil] at hwhole
  exact hwhole.trans (List.append_nil name)

theorem stripArityFrom_dotted (inMarker : Bool) (s t : Text) :
    stripArityFrom inMarker (s ++ '.' :: t) = stripArityFrom inMarker s ++ '.' :: stripArity t := by
  induction s generalizing inMarker with
  | nil => cases inMarker <;> rfl
  | cons c s ih =>
    rw [List.cons_append, stripArityFrom, stripArityFrom]
    split
    · exact ih true
    · split
      · exact ih true
      · rw [ih false, List.cons_append]

theorem lastSegment_stripArity (name : Text) :
    lastSegment (stripArity name) = stripArity (lastSegment name) := by
  cases hcut : Text.cutLast? '.' name with
  | none =>
    have hdot : '.' ∉ name := Text.cutLast?_eq_none.1 hcut
    have hdot' : '.' ∉ stripArity name := fun h => hdot (mem_of_mem_stripArityFrom h)
    rw [lastSegment, lastSegment, Text.afterLast_of_not_mem hdot, Text.afterLast_of_not_mem hdot']
  | some cut =>
    obtain ⟨rfl, hdot⟩ := Text.eq_of_cutLast? hcut
    have hdot' : '.' ∉ stripArity cut.2 := fun h => hdot (mem_of_mem_stripArityFrom h)
    have hname : lastSegment (cut.1 ++ '.' :: cut.2) = cut.2 := by
      rw [lastSegment, Text.afterLast_behind, Text.afterLast_of_not_mem hdot]
    rw [hname, stripArity, stripArityFrom_dotted, lastSegment, Text.afterLast_behind,
      Text.afterLast_of_not_mem hdot']

theorem segmentBeforeList_append {name listed : Text} (hname : '(' ∉ name)
    (hlisted : ∀ c ∈ listed.head?, c = '(') :
    segmentBeforeList (name ++ listed) = lastSegment name ++ listed := by
  have hrest : (name ++ listed).dropWhile (· != '(') = listed :=
    Text.dropWhile_append (fun _ hc => bne_iff_ne.2 fun heq => hname (heq ▸ hc))
      fun c hc => bne_eq_false_iff_eq.2 (hlisted c hc)
  rw [segmentBeforeList, Text.beforeFirst_append hname hlisted, hrest]

def constructorEnding : Text :=
  "." ++ constructorMarker

theorem mem_of_mem_dropConstructorMarkers {c : Char} {t : Text} (h : c ∈ dropConstructorMarkers t) :
    c ∈ t := by
  induction t using dropConstructorMarkers.induct with
  | case1 rest ih => exact List.mem_append_right constructorEnding (ih h)
  | case2 d rest hne ih =>
    rw [dropConstructorMarkers.eq_2 d rest hne] at h
    rcases List.mem_cons.1 h with rfl | h
    · exact List.mem_cons_self
    · exact List.mem_cons_of_mem _ (ih h)
  | case3 => exact h

theorem dropConstructorMarkers_cons {c : Char} {t : Text} (h : ¬ constructorEnding <+: c :: t) :
    dropConstructorMarkers (c :: t) = c :: dropConstructorMarkers t := by
  rw [dropConstructorMarkers]
  rintro rest rfl rfl
  exact h ⟨rest, rfl⟩

theorem dropConstructorMarkers_eq_self {t : Text} (h : ¬ constructorEnding <:+: t) :
    dropConstructorMarkers t = t := by
  induction t with
  | nil => rfl
  | cons c t ih =>
    rw [List.infix_cons_iff, not_or] at h
    rw [dropConstructorMarkers_cons h.1, ih h.2]

theorem dropConstructorMarkers_append {t : Text} (h : ¬ constructorEnding <:+: t) :
    dropConstructorMarkers (t ++ constructorEnding) = t := by
  induction t with
  | nil => rfl
  | cons c t ih =>
    have hfront : ¬ constructorEnding <+: c :: (t ++ constructorEnding) := by
      intro hp
      have hlast : 'r' ∉ (".#cto" : Text) := by decide
      exact h (Text.prefix_of_append hlast (List.cons_ne_nil c t) hp).isInfix
    rw [List.infix_cons_iff, not_or] at h
    rw [List.cons_append, dropConstructorMarkers_cons hfront, ih h.2]

/-- The qualified name whose last segment a member is called by: its own, or that of its type where
it is a constructor. -/
inductive NamedAfter : Text → Text → Prop
  | itself {name : Text} (h : ¬ constructorMarker <:+: name) : NamedAfter name name
  | ofType {type : Text} (h : ¬ constructorEnding <:+: type) :
    NamedAfter (type ++ constructorEnding) type

namespace NamedAfter

variable {name qualified : Text}

theorem dropConstructorMarkers_eq (h : NamedAfter name qualified) :
    dropConstructorMarkers name = qualified := by
  cases h with
  | itself h =>
    have hsuffix : constructorMarker <:+: constructorEnding := (List.suffix_append _ _).isInfix
    exact dropConstructorMarkers_eq_self fun hin => h (hsuffix.trans hin)
  | ofType h => exact dropConstructorMarkers_append h

theorem segment_eq {id : MemberId} (h : NamedAfter id.name qualified) :
    (if id.isConstructor then lastSegment id.declaringType else id.memberName) =
      lastSegment qualified := by
  generalize hname : id.name = name at h
  cases h with
  | itself h =>
    have hother : ¬ id.isConstructor = true := by
      rwa [MemberId.isConstructor, Text.holds_iff, hname]
    rw [if_neg hother, MemberId.memberName, hname, lastSegment]
  | ofType h =>
    have hconstructor : id.isConstructor = true := by
      rw [MemberId.isConstructor, Text.holds_iff, hname, constructorEnding, ← List.append_assoc]
      exact (List.suffix_append _ _).isInfix
    have hdeclaring : id.declaringType = qualified := by
      have hcut : Text.cutLast? '.' (qualified ++ constructorEnding) =
          some (qualified, constructorMarker) :=
        Text.cutLast?_append (by decide) qualified
      rw [MemberId.declaringType, hname, hcut]
    rw [if_pos hconstructor, hdeclaring]

end NamedAfter

def parenthesized (list : Text) : Text :=
  "(" ++ list ++ ")"

theorem parameterList_nil (assembly : Text) (types : List Text) :
    parameterList assembly types [] = [] := by
  cases types <;> rfl

theorem displayName_eq_display {e : Element} {raw : Text} {id : MemberId}
    (hname : e.attr? "name" = some raw) (hid : MemberId.parse? raw = some id) (assembly : Text) :
    displayName assembly e = id.display assembly (e.name = "member") (parameterNames e) := by
  rw [displayName, hname]
  dsimp only
  rw [hid]

theorem Content.returnText_of_constructor {ctx : Context} {raw : Text} {id : MemberId}
    (hname : ctx.memberName? = some raw) (hid : MemberId.parse? raw = some id)
    (hconstructor : id.isConstructor = true) (e : Element) :
    returnText ctx e = stripArity (lastSegment id.declaringType) := by
  rw [returnText, hname, Option.bind_some, hid]
  exact if_pos hconstructor

namespace MemberId

variable {id : MemberId}

theorem display_method (hk : id.kind = .method) (assembly : Text) (names : List Text) :
    id.display assembly true names = stripArity (lastSegment (dropConstructorMarkers id.name)) ++
      parenthesized (parameterList assembly (id.params.getD []) names) := by
  have hmethod : (id.kind == .method) = true := by rw [hk]; rfl
  have hother : (id.kind == .property || id.kind == .field) = false := by rw [hk]; rfl
  simp only [display, hmethod, hother, Bool.and_true, Bool.and_false, if_true, Bool.false_eq_true,
    if_false]
  cases names with
  | nil =>
    rw [parameterList_nil]
    rfl
  | cons first others =>
    simp only [List.isEmpty_cons, Bool.not_false, if_true, parenthesized, List.append_assoc]

theorem display_segment (hk : id.kind = .property ∨ id.kind = .field) (ho : '(' ∉ id.name)
    (assembly : Text) (names : List Text) :
    id.display assembly true names = stripArity (lastSegment (dropConstructorMarkers id.name)) ++
      if names = [] then [] else parenthesized (parameterList assembly (id.params.getD []) names) := by
  have hmethod : (id.kind == .method) = false := by
    rcases hk with hk | hk <;> rw [hk] <;> rfl
  have hsegment : (id.kind == .property || id.kind == .field) = true := by
    rcases hk with hk | hk <;> rw [hk] <;> rfl
  have hopen : '(' ∉ stripArity (dropConstructorMarkers id.name) :=
    fun h => ho (mem_of_mem_dropConstructorMarkers (mem_of_mem_stripArityFrom h))
  simp only [display, hmethod, hsegment, Bool.and_true, Bool.and_false, Bool.false_eq_true, if_true,
    if_false]
  rw [← lastSegment_stripArity, ← segmentBeforeList_append hopen]
  · cases names with
    | nil => simp
    | cons first others =>
      simp [parenthesized, List.append_assoc]
  · cases names with
    | nil => rintro c ⟨⟩
    | cons first others =>
      rintro c ⟨⟩
      rfl

end MemberId

theorem base_names_agree {e : Element} {raw qualified : Text} {id : MemberId}
    (he : e.name = "member") (hname : e.attr? "name" = some raw)
    (hid : MemberId.parse? raw = some id) (hq : NamedAfter id.name qualified) :
    let list (assembly : Text) :=
      parenthesized (parameterList assembly (id.params.getD []) (parameterNames e))
    simpleName raw = stripArity (lastSegment qualified) ∧
    (id.kind = .method → ∀ assembly, displayName assembly e = simpleName raw ++ list assembly) ∧
    (id.kind = .property ∨ id.kind = .field → ∀ assembly,
      displayName assembly e = simpleName raw ++ if parameterNames e = [] then [] else list assembly) ∧
    (id.kind = .method → ∀ ctx : Context, ctx.members.get? raw = none →
      (Link.ofCref ctx raw).display = simpleName raw ++
        parenthesized (Text.joinWith ", " ((id.params.getD []).map (typeText ctx.assembly)))) ∧
    (id.isConstructor = true → ∀ (returns : Element) (parts : Parts) (ctx : Context),
      ctx.member = some e → Content.returnType.values returns parts ctx = .ok [simpleName raw]) := by
  intro list
  have hsimple : simpleName raw = stripArity (lastSegment qualified) := by
    rw [simpleName, hid]
    exact congrArg stripArity hq.segment_eq
  have hdisplay (assembly : Text) :
      displayName assembly e = id.display assembly true (parameterNames e) := by
    rw [displayName_eq_display hname hid, decide_eq_true he]
  refine ⟨hsimple, ?_, ?_, ?_, ?_⟩
  · intro hk assembly
    rw [hdisplay, MemberId.display_method hk, hq.dropConstructorMarkers_eq, hsimple]
  · intro hk assembly
    rw [hdisplay, MemberId.display_segment hk (MemberId.not_mem_name hid), hq.dropConstructorMarkers_eq, hsimple]
  · intro hk ctx hnone
    rw [Link.ofCref_of_parse? hid, Link.displayOf, if_pos hk, MemberId.raw_of_parse? hid, hnone,
      Link.methodText, hq.segment_eq, hsimple, parenthesized]
    simp only [List.append_assoc]
  · intro hconstructor returns parts ctx hmember
    have hmemberName : ctx.memberName? = some raw := by
      rw [Context.memberName?, hmember]
      exact hname
    have htext : Content.returnText ctx returns = simpleName raw := by
      rw [Content.returnText_of_constructor hmemberName hid hconstructor, hsimple, ← hq.segment_eq,
        if_pos hconstructor]
    rw [← htext]
    rfl

def memberWith (name : Text) (params : List Text) : Element :=
  ⟨⟨"member", [("name", name)], ⟨1, 1⟩⟩,
    params.map fun param => .element ⟨"param", [("name", param)], ⟨1, 1⟩⟩ []⟩

theorem base_names_agree_generic :
    let ctor : Text := "M:Foo.Bar`1.#ctor(System.Int32,`0)"
    let indexer : Text := "P:Foo.Bar`1.Item(System.Collections.Generic.List\x7bA.B\x7d)"
    let made := memberWith ctor ["x", "y"]
    let ctx : Context := ⟨"Foo", ⟨.error, .singlePage⟩, .unknown, [], some made⟩
    (∃ id, MemberId.parse? ctor = some id ∧ NamedAfter id.name "Foo.Bar`1" ∧
      displayName "Foo" made = "Bar(int x, `0 y)" ∧
      (Link.ofCref ctx ctor).display = "Bar(int, `0)" ∧
      ∀ returns parts, Content.returnType.values returns parts ctx = .ok ["Bar"]) ∧
    ∃ id, MemberId.parse? indexer = some id ∧ NamedAfter id.name "Foo.Bar`1.Item" ∧
      displayName "Foo" (memberWith indexer ["a.b"]) = "Item(List‹B› a.b)" := by
  intro ctor indexer made ctx
  constructor
  · have hid : MemberId.parse? ctor =
        some ⟨.method, "Foo.Bar`1.#ctor", some ["System.Int32", "`0"], ctor⟩ := by
      decide +kernel
    have hq : NamedAfter "Foo.Bar`1.#ctor" "Foo.Bar`1" :=
      @NamedAfter.ofType "Foo.Bar`1" (by decide +kernel)
    obtain ⟨hsimple, hmethod, -, hlink, hreturns⟩ :=
      base_names_agree (e := made) rfl rfl hid hq
    have hbase : simpleName ctor = "Bar" := hsimple
    refine ⟨_, hid, hq, ?_, ?_, ?_⟩
    · rw [hmethod rfl, hbase]
      decide +kernel
    · rw [hlink rfl ctx rfl, hbase]
      decide +kernel
    · intro returns parts
      rw [hreturns (by decide +kernel) returns parts ctx rfl, hbase]
  · have hid : MemberId.parse? indexer = some ⟨.property, "Foo.Bar`1.Item",
        some ["System.Collections.Generic.List\x7bA.B\x7d"], indexer⟩ := by
      decide +kernel
    have hq : NamedAfter "Foo.Bar`1.Item" "Foo.Bar`1.Item" := .itself (by decide +kernel)
    obtain ⟨hsimple, -, hproperty, -, -⟩ :=
      base_names_agree (e := memberWith indexer ["a.b"]) rfl rfl hid hq
    have hbase : simpleName indexer = "Item" := hsimple
    refine ⟨_, hid, hq, ?_⟩
    rw [hproperty (.inl rfl), hbase]
    decide +kernel

end Docmark
