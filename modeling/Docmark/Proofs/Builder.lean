import Docmark.Markup.Document
import Docmark.Proofs.Events

/-!
Building a tree out of events. There is a tree just when the tags make up one element, and a walk
over it gives back all that was read.
-/

namespace Docmark

namespace Markup

theorem appendText_cons (t : Text) (n : Node) {nodes : List Node} (h : nodes ≠ []) :
    appendText t (n :: nodes) = n :: appendText t nodes := by
  cases nodes with
  | nil => exact absurd rfl h
  | cons m more => cases n <;> rfl

theorem appendText_ne_nil (t : Text) (nodes : List Node) : appendText t nodes ≠ [] := by
  cases nodes with
  | nil => exact List.cons_ne_nil _ _
  | cons n more => cases n <;> cases more <;> exact List.cons_ne_nil _ _

theorem appendText_appendText (s t : Text) (nodes : List Node) :
    appendText t (appendText s nodes) = appendText (s ++ t) nodes := by
  induction nodes with
  | nil => rfl
  | cons n nodes ih =>
    by_cases hne : nodes = []
    · subst hne
      cases n with
      | text before => simp [appendText]
      | element tag children => rfl
    · rw [appendText_cons _ _ hne, appendText_cons _ _ (appendText_ne_nil s nodes), ih,
        appendText_cons _ _ hne]

theorem appendText_of_not_isText (t : Text) {nodes : List Node}
    (h : ∀ n ∈ nodes.getLast?, n.isText = false) : appendText t nodes = nodes ++ [.text t] := by
  induction nodes with
  | nil => rfl
  | cons n nodes ih =>
    by_cases hne : nodes = []
    · subst hne
      cases n with
      | text before => cases h _ rfl
      | element tag children => rfl
    · rw [List.getLast?_cons_of_ne_nil hne] at h
      rw [appendText_cons _ _ hne, ih h, List.cons_append]

theorem appendText_append_text (t before : Text) (nodes : List Node) :
    appendText t (nodes ++ [.text before]) = nodes ++ [.text (before ++ t)] := by
  induction nodes with
  | nil => rfl
  | cons n nodes ih => rw [List.cons_append, appendText_cons _ _ (by simp), ih, List.cons_append]

theorem appendText_cases (t : Text) (nodes : List Node) :
    ((∀ n ∈ nodes.getLast?, n.isText = false) ∧ appendText t nodes = nodes ++ [.text t]) ∨
      ∃ front before, nodes = front ++ [.text before] ∧
        appendText t nodes = front ++ [.text (before ++ t)] := by
  by_cases h : ∀ n ∈ nodes.getLast?, n.isText = false
  · exact Or.inl ⟨h, appendText_of_not_isText t h⟩
  · right
    simp only [not_forall, Bool.not_eq_false] at h
    obtain ⟨n, hn, htext⟩ := h
    obtain ⟨front, rfl⟩ := List.getLast?_eq_some_iff.1 hn
    cases n with
    | text before => exact ⟨front, before, rfl, appendText_append_text t before front⟩
    | element tag children => cases htext

theorem mergeTexts_appendText (t : Text) (nodes : List Node) :
    mergeTexts (Node.eventsAll (appendText t nodes)) =
      mergeTexts (Node.eventsAll nodes ++ [.text t]) := by
  rcases appendText_cases t nodes with ⟨-, h⟩ | ⟨front, before, rfl, h⟩
  · rw [h, Node.eventsAll_append]
    rfl
  · rw [h, Node.eventsAll_append, Node.eventsAll_append, List.append_assoc]
    exact mergeTexts_append_right _ rfl

namespace Builder

def openEvents : List Element → List Event
  | [] => []
  | e :: others => openEvents others ++ .opening e.tag :: Node.eventsAll e.children

def events (b : Builder) : List Event :=
  b.root.elim [] (·.toNode.events) ++ openEvents b.pending

theorem events_of_attach {b next : Builder} {e : Element} (h : b.attach e = .ok next) :
    next.events = b.events ++ e.toNode.events := by
  rcases b with ⟨_ | ⟨parent, others⟩, _ | root⟩
  · cases h
    simp [events, openEvents]
  · cases h
  · cases h
    simp [events, openEvents, Node.eventsAll_append, Node.eventsAll_singleton]
  · cases h
    simp [events, openEvents, Node.eventsAll_append, Node.eventsAll_singleton]

theorem tagEvents_addText (b : Builder) (content : Text) :
    tagEvents (b.addText content).events = tagEvents b.events := by
  rcases b with ⟨_ | ⟨e, others⟩, root⟩
  · rfl
  · have htags : tagEvents (Node.eventsAll (appendText content e.children)) =
        tagEvents (Node.eventsAll e.children) := by
      rcases appendText_cases content e.children with ⟨-, h⟩ | ⟨front, before, hc, h⟩
      · rw [h, Node.eventsAll_append, tagEvents_append]
        exact List.append_nil _
      · rw [h, hc, Node.eventsAll_append, Node.eventsAll_append, tagEvents_append, tagEvents_append]
        rfl
    simp only [tagEvents] at htags
    simp [events, addText, openEvents, tagEvents, List.filter_cons, htags]

theorem tagEvents_of_step {b next : Builder} {event : Event} (h : b.step event = .ok next) :
    tagEvents next.events = tagEvents b.events ++ tagEvents event.parts := by
  cases event with
  | opening tag =>
    cases h
    simp [events, openEvents, Node.eventsAll, tagEvents_append, Event.parts]
  | empty tag =>
    rw [events_of_attach h, tagEvents_append]
    rfl
  | closing =>
    rcases b with ⟨_ | ⟨e, others⟩, root⟩
    · cases h
    · have hattach : (⟨others, root⟩ : Builder).attach e = .ok next := h
      rw [events_of_attach hattach, ← tagEvents_append]
      simp [events, openEvents, Event.parts, Element.toNode, Node.events]
  | text content =>
    cases h
    rw [tagEvents_addText]
    exact (List.append_nil _).symm

theorem run_cons_eq_ok {b final : Builder} {event : Event} {more : List Event} :
    b.run (event :: more) = .ok final ↔ ∃ next, b.step event = .ok next ∧ next.run more = .ok final := by
  rw [run]
  cases hs : b.step event with
  | error cause => simp [bind, Except.bind]
  | ok next => simp [bind, Except.bind]

theorem tagEvents_of_run {b final : Builder} {read : List Event} (h : b.run read = .ok final) :
    tagEvents final.events = tagEvents b.events ++ tagEvents (read.flatMap Event.parts) := by
  induction read generalizing b with
  | nil =>
    cases h
    exact (List.append_nil _).symm
  | cons event more ih =>
    obtain ⟨next, hs, hr⟩ := run_cons_eq_ok.1 h
    rw [ih hr, tagEvents_of_step hs, List.append_assoc, ← tagEvents_append, List.flatMap_cons]

theorem run_append {b next : Builder} {before : List Event} (h : b.run before = .ok next)
    (behind : List Event) : b.run (before ++ behind) = next.run behind := by
  induction before generalizing b with
  | nil =>
    cases h
    rfl
  | cons event more ih =>
    obtain ⟨mid, hs, hr⟩ := run_cons_eq_ok.1 h
    rw [List.cons_append, run, hs]
    exact ih hr

theorem run_cons_congr (b : Builder) (event : Event) {ms ns : List Event}
    (h : ∀ next : Builder, next.run ms = next.run ns) : b.run (event :: ms) = b.run (event :: ns) := by
  rw [run, run]
  congr 1
  funext next
  exact h next

theorem run_parts (b : Builder) (read : List Event) :
    b.run (read.flatMap Event.parts) = b.run read := by
  induction read generalizing b with
  | nil => rfl
  | cons event more ih =>
    cases event with
    | empty tag => exact run_cons_congr b (.empty tag) ih
    | opening | closing | text => exact run_cons_congr b _ ih

end Builder

theorem appendText_apart (content : Text) {nodes : List Node} (h : Node.AllTextsApart nodes) :
    Node.AllTextsApart (appendText content nodes) := by
  obtain ⟨ha, hs⟩ := h
  rcases appendText_cases content nodes with ⟨hlast, happend⟩ | ⟨front, before, rfl, happend⟩
  · rw [happend]
    constructor
    · apply List.IsChain.append ha (List.isChain_singleton _)
      intro m hm n _ hboth
      rw [hlast m hm] at hboth
      exact absurd hboth.1 Bool.false_ne_true
    · intro n hn
      rcases List.mem_append.1 hn with hn | hn
      · exact hs n hn
      · exact List.mem_singleton.1 hn ▸ .text
  · rw [happend]
    constructor
    · rw [Node.Apart, List.isChain_append] at ha ⊢
      refine ⟨ha.1, List.isChain_singleton _, ?_⟩
      intro m hm n hn
      rw [List.head?_cons, Option.mem_some_iff] at hn
      exact hn ▸ ha.2.2 m hm (.text before) rfl
    · intro n hn
      rcases List.mem_append.1 hn with hn | hn
      · exact hs n (List.mem_append_left _ hn)
      · exact List.mem_singleton.1 hn ▸ .text

structure Grows (before : List Node) (read : List Event) (after : List Node) : Prop where
  events : mergeTexts (Node.eventsAll after) = mergeTexts (Node.eventsAll before ++ read)
  apart : Node.AllTextsApart before → Node.AllTextsApart after

theorem Grows.refl (nodes : List Node) : Grows nodes [] nodes :=
  ⟨by rw [List.append_nil], id⟩

theorem Grows.trans {first second third : List Node} {before behind : List Event}
    (hf : Grows first before second) (hs : Grows second behind third) :
    Grows first (before ++ behind) third := by
  refine ⟨?_, fun h => hs.apart (hf.apart h)⟩
  rw [hs.events, mergeTexts_congr_left hf.events, List.append_assoc]

theorem Grows.text (nodes : List Node) (content : Text) :
    Grows nodes [.text content] (appendText content nodes) :=
  ⟨mergeTexts_appendText content nodes, appendText_apart content⟩

theorem Grows.events_element {tag : StartTag} {children : List Node} {inner : List Event}
    (h : Grows [] inner children) :
    mergeTexts (Node.element tag children).events =
      mergeTexts (.opening tag :: (inner ++ [.closing])) := by
  calc mergeTexts (Node.element tag children).events
    _ = .opening tag :: (mergeTexts (Node.eventsAll children) ++ [.closing]) := by
      have helement := Node.mergeTexts_element tag children []
      rwa [List.append_nil] at helement
    _ = .opening tag :: (mergeTexts inner ++ [.closing]) := by
      rw [h.events]
      rfl
    _ = mergeTexts (.opening tag :: (inner ++ [.closing])) := by
      rw [mergeTexts_tag rfl, mergeTexts_append_tag inner rfl]
      rfl

theorem Grows.textsApart_element {tag : StartTag} {children : List Node} {inner : List Event}
    (h : Grows [] inner children) : (Node.element tag children).TextsApart := by
  have hchildren := h.apart ⟨List.isChain_nil, fun n hn => absurd hn List.not_mem_nil⟩
  exact .element hchildren.1 hchildren.2

theorem Grows.element (nodes : List Node) {tag : StartTag} {children : List Node}
    {inner : List Event} (h : Grows [] inner children) :
    Grows nodes (.opening tag :: (inner ++ [.closing])) (nodes ++ [.element tag children]) := by
  constructor
  · rw [Node.eventsAll_append, Node.eventsAll_singleton]
    exact mergeTexts_append_right _ h.events_element
  · rintro ⟨ha, hs⟩
    constructor
    · apply List.IsChain.append ha (List.isChain_singleton _)
      intro m _ n hn hboth
      rw [List.head?_cons, Option.mem_some_iff] at hn
      rw [← hn] at hboth
      exact absurd hboth.2 Bool.false_ne_true
    · intro n hn
      rcases List.mem_append.1 hn with hn | hn
      · exact hs n hn
      · exact List.mem_singleton.1 hn ▸ h.textsApart_element

namespace Builder

theorem run_outside {read : List Event} (h : tagEvents read = []) (root : Option Element) :
    (⟨[], root⟩ : Builder).run read = .ok ⟨[], root⟩ := by
  induction read with
  | nil => rfl
  | cons event more ih =>
    cases event with
    | text content => exact ih h
    | opening | empty | closing => cases h

theorem run_texts {read : List Event} (h : tagEvents read = []) (tag : StartTag)
    (before : List Node) (others : List Element) (root : Option Element) :
    ∃ after, (⟨⟨tag, before⟩ :: others, root⟩ : Builder).run read =
      .ok ⟨⟨tag, after⟩ :: others, root⟩ ∧ Grows before read after := by
  induction read generalizing before with
  | nil => exact ⟨before, rfl, .refl before⟩
  | cons event more ih =>
    cases event with
    | text content =>
      obtain ⟨after, hr, hg⟩ := ih h (appendText content before)
      exact ⟨after, hr, (Grows.text before content).trans hg⟩
    | opening | empty | closing => cases h

theorem run_balanced {tags read : List Event} (hb : Balanced tags) (h : tagEvents read = tags)
    (tag : StartTag) (before : List Node) (others : List Element) (root : Option Element) :
    ∃ after, (⟨⟨tag, before⟩ :: others, root⟩ : Builder).run read =
      .ok ⟨⟨tag, after⟩ :: others, root⟩ ∧ Grows before read after := by
  -- What is open around the elements stays as it is, so the induction needs all of it.
  induction hb generalizing read tag before others with
  | nil => exact run_texts h tag before others root
  | @element inside inner rest _ _ ihi ihr =>
    have hfirst : tagEvents read = [] ++ .opening inside :: (inner ++ .closing :: rest) := h
    obtain ⟨texts, more, rfl, ht, hm⟩ := exists_of_tagEvents hfirst
    obtain ⟨content, behind, rfl, hc, hbehind⟩ := exists_of_tagEvents hm
    obtain ⟨first, hfirst, hgf⟩ := run_texts ht tag before others root
    obtain ⟨children, hchildren, hgc⟩ := ihi hc inside [] (⟨tag, first⟩ :: others)
    obtain ⟨after, hafter, hga⟩ := ihr hbehind tag (first ++ [.element inside children]) others
    refine ⟨after, ?_, ?_⟩
    · have hopen : (⟨⟨tag, first⟩ :: others, root⟩ : Builder).run
          (.opening inside :: (content ++ .closing :: behind)) =
            (⟨⟨inside, []⟩ :: ⟨tag, first⟩ :: others, root⟩ : Builder).run
              (content ++ .closing :: behind) := rfl
      rw [run_append hfirst, hopen, run_append hchildren]
      exact hafter
    · have hgrown := hgf.trans ((Grows.element first hgc).trans hga)
      simpa using hgrown

theorem run_oneElement {read : List Event} (h : OneElement (tagEvents read)) :
    ∃ tag children front inner behind, start.run read = .ok ⟨[], some ⟨tag, children⟩⟩ ∧
      read = front ++ (.opening tag :: (inner ++ .closing :: behind)) ∧
      tagEvents front = [] ∧ tagEvents behind = [] ∧ Grows [] inner children := by
  obtain ⟨tag, tags, hb, h⟩ := h
  have hfirst : tagEvents read = [] ++ .opening tag :: (tags ++ [.closing]) := h
  obtain ⟨front, more, rfl, hf, hm⟩ := exists_of_tagEvents hfirst
  obtain ⟨inner, behind, rfl, hi, hbehind⟩ := exists_of_tagEvents hm
  obtain ⟨children, hchildren, hg⟩ := run_balanced hb hi tag [] [] none
  refine ⟨tag, children, front, inner, behind, ?_, rfl, hf, hbehind, hg⟩
  have hopen : start.run (.opening tag :: (inner ++ .closing :: behind)) =
      (⟨[⟨tag, []⟩], none⟩ : Builder).run (inner ++ .closing :: behind) := rfl
  rw [start, run_append (run_outside hf none), ← start, hopen, run_append hchildren]
  exact run_outside hbehind (some ⟨tag, children⟩)

theorem attach_ne_strayEnd (b : Builder) (e : Element) : b.attach e ≠ .error .strayEnd := by
  rcases b with ⟨_ | ⟨parent, others⟩, _ | root⟩ <;> simp [attach]

theorem length_of_attach {b next : Builder} {e : Element} (h : b.attach e = .ok next) :
    next.pending.length = b.pending.length := by
  rcases b with ⟨_ | ⟨parent, others⟩, _ | root⟩ <;> cases h <;> rfl

theorem run_cons_ne_strayEnd {b : Builder} {event : Event} {more : List Event}
    (hs : b.step event ≠ .error .strayEnd)
    (hr : ∀ next, b.step event = .ok next → next.run more ≠ .error .strayEnd) :
    b.run (event :: more) ≠ .error .strayEnd := by
  rw [run]
  cases h : b.step event with
  | error cause =>
    intro he
    cases he
    exact hs h
  | ok next => exact hr next h

theorem run_eventsFrom_ne_strayEnd (place : Nat → Position) (fault : Option Fault)
    {names : List Text} (ts : List (Nat × Token)) {b : Builder}
    (h : b.pending.length = names.length) :
    b.run (eventsFrom place fault names ts).items ≠ .error .strayEnd := by
  -- End tags that have nothing to close end the reading, so the builder does not meet them.
  induction ts generalizing names b with
  | nil => exact fun he => by cases he
  | cons t more ih =>
    obtain ⟨offset, token⟩ := t
    have hadd (content : Text) : (b.addText content).pending.length = names.length := by
      rcases b with ⟨_ | ⟨e, others⟩, root⟩ <;> exact h
    cases token with
    | opening content => exact ih (congrArg (· + 1) h)
    | empty content =>
      have hstep : b.step (.empty (startTag (place offset) content)) ≠ .error .strayEnd :=
        attach_ne_strayEnd b _
      apply run_cons_ne_strayEnd hstep
      intro next hn
      exact ih ((length_of_attach hn).trans h)
    | closing content =>
      cases names with
      | nil => exact fun he => by cases he
      | cons name names =>
        rw [eventsFrom]
        by_cases hname : endName content = name
        · rw [if_pos hname]
          rcases b with ⟨_ | ⟨e, others⟩, root⟩
          · cases h
          · have hstep : (⟨e :: others, root⟩ : Builder).step .closing ≠ .error .strayEnd :=
              attach_ne_strayEnd ⟨others, root⟩ e
            apply run_cons_ne_strayEnd hstep
            intro next hn
            exact ih ((length_of_attach hn).trans (Nat.succ.inj h))
        · rw [if_neg hname]
          exact fun he => by cases he
    | text content => exact ih (hadd content)
    | cdata content => exact ih (hadd content)
    | reference name => exact ih (hadd (referenceText name))
    | aside content => exact ih h

theorem finish_eq_ok {b : Builder} {root : Element} :
    b.finish = .ok root ↔ b = ⟨[], some root⟩ := by
  rcases b with ⟨_ | ⟨e, others⟩, _ | found⟩ <;> simp [finish]

theorem finish_ne_strayEnd (b : Builder) : b.finish ≠ .error .strayEnd := by
  rcases b with ⟨_ | ⟨e, others⟩, _ | found⟩ <;> simp [finish]

end Builder
end Markup

namespace Document

open Markup

theorem run_of_ofEvents {read : Reading Event} {d : Document} (h : ofEvents read = .ok d) :
    read.fault = none ∧ Builder.start.run read.items = .ok ⟨[], some d.root⟩ := by
  unfold ofEvents at h
  split at h
  · cases h
  · cases h
  · next b hr hf =>
    split at h
    · next root hfinish =>
      cases h
      exact ⟨hf, Builder.finish_eq_ok.1 hfinish ▸ hr⟩
    · cases h

theorem ofEvents_of_run {read : Reading Event} {root : Element} (hf : read.fault = none)
    (hr : Builder.start.run read.items = .ok ⟨[], some root⟩) : ofEvents read = .ok ⟨root⟩ := by
  rw [ofEvents, hr, hf]
  rfl

theorem tagEvents_of_ofEvents {read : Reading Event} {d : Document} (h : ofEvents read = .ok d) :
    tagEvents d.root.toNode.events = tagEvents (read.items.flatMap Event.parts) := by
  have hroot : Builder.events ⟨[], some d.root⟩ = d.root.toNode.events := List.append_nil _
  rw [← hroot, Builder.tagEvents_of_run (run_of_ofEvents h).2]
  rfl

theorem malformed_of_ofEvents {read : Reading Event} (hf : read.fault = none)
    (hr : Builder.start.run read.items ≠ .error .strayEnd) (h : ∀ d, ofEvents read ≠ .ok d) :
    ∃ cause, ofEvents read = .error (.malformed cause) ∧ cause ≠ .strayEnd := by
  unfold ofEvents at h ⊢
  rw [hf] at h ⊢
  cases hrun : Builder.start.run read.items with
  | error cause =>
    refine ⟨cause, rfl, ?_⟩
    rintro rfl
    exact hr hrun
  | ok b =>
    rw [hrun] at h
    cases hfinish : b.finish with
    | error cause =>
      refine ⟨cause, by simp [hfinish], ?_⟩
      rintro rfl
      exact b.finish_ne_strayEnd hfinish
    | ok root =>
      exact absurd (by simp [hfinish]) (h ⟨root⟩)

theorem tags_of_ofEvents {place : Nat → Position} {fault : Option Fault} {ts : List (Nat × Token)}
    {d : Document} (h : ofEvents (eventsFrom place fault [] ts) = .ok d) :
    d.root.toNode.tags = (ts.flatMap (Token.events place)).filterMap Event.opened? := by
  have htags := tagEvents_of_ofEvents h
  rw [flatMap_parts_eventsFrom (run_of_ofEvents h).1] at htags
  have hopened (read : List Event) :
      (tagEvents read).filterMap Event.opened? = read.filterMap Event.opened? := by
    rw [tagEvents, List.filterMap_filter]
    congr 1
    funext event
    cases event <;> rfl
  rw [← Node.filterMap_events, ← hopened, htags]
  exact hopened _

/-- The tokens up to the end of a file give a tree just when their tags make up one element, and the
walk over the tree meets what is between the first and the last of them. -/
theorem ofEvents_builds_element {place : Nat → Position} {ts : List (Nat × Token)}
    (h : (eventsFrom place none [] ts).fault = none) :
    let read := ts.flatMap (Token.events place)
    let built := ofEvents (eventsFrom place none [] ts)
    ((∃ d, built = .ok d) ↔ OneElement (tagEvents read)) ∧
      (¬ OneElement (tagEvents read) →
        ∃ cause, built = .error (.malformed cause) ∧ cause ≠ .strayEnd) ∧
      ∀ d, built = .ok d → d.root.toNode.TextsApart ∧
        ∃ front inner behind, read = front ++ (inner ++ behind) ∧
          tagEvents front = [] ∧ tagEvents behind = [] ∧
            d.root.toNode.events = mergeTexts inner := by
  intro read built
  have hparts : (eventsFrom place none [] ts).items.flatMap Event.parts = read :=
    flatMap_parts_eventsFrom h
  have hrun : Builder.start.run (eventsFrom place none [] ts).items = Builder.start.run read := by
    rw [← hparts, Builder.run_parts]
  have hone : ∀ d, built = .ok d → OneElement (tagEvents read) := by
    intro d hd
    have htags := tagEvents_of_ofEvents hd
    rw [hparts] at htags
    exact htags ▸ oneElement_events d.root
  refine ⟨⟨fun ⟨d, hd⟩ => hone d hd, ?_⟩, ?_, ?_⟩
  · intro hr
    obtain ⟨tag, children, -, -, -, hstart, -⟩ := Builder.run_oneElement hr
    exact ⟨_, ofEvents_of_run h (hrun.trans hstart)⟩
  · intro hr
    apply malformed_of_ofEvents h (Builder.run_eventsFrom_ne_strayEnd place none ts rfl)
    intro d hd
    exact hr (hone d hd)
  · intro d hd
    obtain ⟨tag, children, front, inner, behind, hstart, hread, hf, hb, hg⟩ :=
      Builder.run_oneElement (hone d hd)
    have hsame := (run_of_ofEvents hd).2
    rw [hrun, hstart] at hsame
    have hroot : (⟨tag, children⟩ : Element) = d.root := by
      simpa using hsame
    have htree : d.root.toNode.TextsApart := hroot ▸ hg.textsApart_element
    refine ⟨htree, front, .opening tag :: (inner ++ [.closing]), behind, ?_, hf, hb, ?_⟩
    · simpa using hread
    · rw [← htree.mergeTexts_events, ← hroot]
      exact hg.events_element

def greetingTokens : List (Nat × Token) :=
  [(0, .text "\n"), (1, .opening "a k=\"v\""), (10, .text "x"), (11, .aside "!-- y --"),
    (21, .reference "amp"), (26, .cdata "<"), (39, .reference "zz"), (43, .empty "b"),
    (47, .closing "a "), (52, .text "\n")]

theorem ofEvents_builds_element_greeting :
    let place := Position.mk 1
    let read := greetingTokens.flatMap (Token.events place)
    (eventsFrom place none [] greetingTokens).fault = none ∧ OneElement (tagEvents read) ∧
      ∃ d, ofEvents (eventsFrom place none [] greetingTokens) = .ok d ∧
        d.root.toNode.TextsApart := by
  intro place read
  have hfault : (eventsFrom place none [] greetingTokens).fault = none := rfl
  obtain ⟨hbuilt, -, htree⟩ := ofEvents_builds_element hfault
  have hone : OneElement (tagEvents read) :=
    ⟨startTag (place 1) "a k=\"v\"", [.opening (startTag (place 43) "b"), .closing],
      .element .nil .nil, rfl⟩
  obtain ⟨d, hd⟩ := hbuilt.2 hone
  exact ⟨hfault, hone, d, hd, (htree d hd).1⟩

end Document
end Docmark
