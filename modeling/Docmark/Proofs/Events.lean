import Docmark.Markup.Event
import Docmark.Proofs.Tree

namespace Docmark

namespace Markup

namespace Event

def isText : Event → Bool
  | .text _ => true
  | _ => false

def parts : Event → List Event
  | .empty tag => [.opening tag, .closing]
  | event => [event]

def opened? : Event → Option StartTag
  | .opening tag | .empty tag => some tag
  | _ => none

end Event

def tagEvents (events : List Event) : List Event :=
  events.filter (!·.isText)

/-- Elements in a row, as the events of their tags. -/
inductive Balanced : List Event → Prop
  | nil : Balanced []
  | element {tag : StartTag} {inner rest : List Event} :
    Balanced inner → Balanced rest → Balanced (.opening tag :: (inner ++ .closing :: rest))

def OneElement (tags : List Event) : Prop :=
  ∃ tag inner, Balanced inner ∧ tags = .opening tag :: (inner ++ [.closing])

def joinText (s : Text) : List Event → List Event
  | .text t :: events => .text (s ++ t) :: events
  | events => .text s :: events

def mergeTexts : List Event → List Event
  | [] => []
  | .text s :: events => joinText s (mergeTexts events)
  | event :: events => event :: mergeTexts events

end Markup

open Markup

namespace Node

mutual

def events : Node → List Event
  | .text content => [.text content]
  | .element tag children => .opening tag :: (eventsAll children ++ [.closing])

def eventsAll : List Node → List Event
  | [] => []
  | n :: nodes => events n ++ eventsAll nodes

end

mutual

def tags : Node → List StartTag
  | .text _ => []
  | .element tag children => tag :: tagsAll children

def tagsAll : List Node → List StartTag
  | [] => []
  | n :: nodes => tags n ++ tagsAll nodes

end

inductive TextsApart : Node → Prop
  | text {content : Text} : TextsApart (.text content)
  | element {tag : StartTag} {children : List Node} :
    Apart children → (∀ n ∈ children, TextsApart n) → TextsApart (.element tag children)

def AllTextsApart (nodes : List Node) : Prop :=
  Apart nodes ∧ ∀ n ∈ nodes, TextsApart n

theorem tagsAll_eq_flatMap (nodes : List Node) : tagsAll nodes = nodes.flatMap tags := by
  induction nodes with
  | nil => rfl
  | cons n nodes ih => rw [tagsAll, ih, List.flatMap_cons]

theorem eventsAll_append (ns ms : List Node) :
    eventsAll (ns ++ ms) = eventsAll ns ++ eventsAll ms := by
  induction ns with
  | nil => rfl
  | cons n ns ih => rw [List.cons_append, eventsAll, ih, eventsAll, List.append_assoc]

theorem eventsAll_singleton (n : Node) : eventsAll [n] = n.events := by
  rw [eventsAll, eventsAll, List.append_nil]

theorem filterMap_eventsAll {nodes : List Node}
    (h : ∀ n ∈ nodes, n.events.filterMap Event.opened? = n.tags) :
    (eventsAll nodes).filterMap Event.opened? = tagsAll nodes := by
  induction nodes with
  | nil => rfl
  | cons n nodes ih =>
    rw [eventsAll, List.filterMap_append, h n List.mem_cons_self, tagsAll,
      ih fun m hm => h m (List.mem_cons_of_mem _ hm)]

theorem filterMap_events (n : Node) : n.events.filterMap Event.opened? = n.tags := by
  induction n with
  | text content => rfl
  | element tag children ih =>
    simp [events, tags, Event.opened?, filterMap_eventsAll ih]

end Node

namespace Markup

theorem joinText_joinText (s t : Text) (events : List Event) :
    joinText s (joinText t events) = joinText (s ++ t) events := by
  cases events with
  | nil => rfl
  | cons event events => cases event <;> simp [joinText]

theorem joinText_tag (s : Text) {event : Event} (h : event.isText = false) (events : List Event) :
    joinText s (event :: events) = .text s :: event :: events := by
  cases event with
  | text t => cases h
  | opening | empty | closing => rfl

theorem mergeTexts_tag {event : Event} (h : event.isText = false) (events : List Event) :
    mergeTexts (event :: events) = event :: mergeTexts events := by
  cases event with
  | text t => cases h
  | opening | empty | closing => rfl

theorem mergeTexts_append_tag (before : List Event) {event : Event} (h : event.isText = false)
    (behind : List Event) :
    mergeTexts (before ++ event :: behind) = mergeTexts before ++ event :: mergeTexts behind := by
  induction before with
  | nil => exact mergeTexts_tag h behind
  | cons first before ih =>
    cases first with
    | text s =>
      rw [List.cons_append, mergeTexts, ih, mergeTexts]
      cases hm : mergeTexts before with
      | nil => exact joinText_tag s h _
      | cons next more => cases next <;> rfl
    | opening | empty | closing => rw [List.cons_append, mergeTexts_tag rfl, ih, mergeTexts_tag rfl]; rfl

theorem mergeTexts_append_left (before behind : List Event) :
    mergeTexts (mergeTexts before ++ behind) = mergeTexts (before ++ behind) := by
  induction before with
  | nil => rfl
  | cons event before ih =>
    cases event with
    | text s =>
      rw [mergeTexts, List.cons_append, mergeTexts, ← ih]
      cases mergeTexts before with
      | nil => rfl
      | cons next more =>
        cases next with
        | text t => rw [joinText, List.cons_append, List.cons_append, mergeTexts, mergeTexts,
            joinText_joinText]
        | opening | empty | closing => rfl
    | opening | empty | closing =>
      rw [mergeTexts_tag rfl, List.cons_append, mergeTexts_tag rfl, ih, List.cons_append,
        mergeTexts_tag rfl]

theorem mergeTexts_append_right (before : List Event) {ms ns : List Event}
    (h : mergeTexts ms = mergeTexts ns) : mergeTexts (before ++ ms) = mergeTexts (before ++ ns) := by
  induction before with
  | nil => exact h
  | cons event before ih =>
    cases event with
    | text s => exact congrArg (joinText s) ih
    | opening | empty | closing => exact congrArg (_ :: ·) ih

theorem mergeTexts_congr_left {ms ns : List Event} (h : mergeTexts ms = mergeTexts ns)
    (behind : List Event) : mergeTexts (ms ++ behind) = mergeTexts (ns ++ behind) := by
  rw [← mergeTexts_append_left, h, mergeTexts_append_left]

end Markup

namespace Node

theorem mergeTexts_element (tag : StartTag) (children : List Node) (behind : List Event) :
    mergeTexts ((element tag children).events ++ behind) =
      .opening tag :: (mergeTexts (eventsAll children) ++ .closing :: mergeTexts behind) := by
  rw [events, List.cons_append, List.append_assoc, List.singleton_append, mergeTexts_tag rfl,
    mergeTexts_append_tag (eventsAll children) rfl]

theorem mergeTexts_eventsAll {nodes : List Node} (ha : Apart nodes)
    (hs : ∀ n ∈ nodes, mergeTexts n.events = n.events) :
    mergeTexts (eventsAll nodes) = eventsAll nodes := by
  induction nodes with
  | nil => rfl
  | cons n nodes ih =>
    have hrest := ih ha.tail fun m hm => hs m (List.mem_cons_of_mem _ hm)
    cases n with
    | text s =>
      rw [eventsAll, events, List.singleton_append, mergeTexts, hrest]
      cases nodes with
      | nil => rfl
      | cons m more =>
        cases m with
        | text t => exact absurd ⟨rfl, rfl⟩ (List.isChain_cons_cons.1 ha).1
        | element tag children => rfl
    | element tag children =>
      have hn := hs _ List.mem_cons_self
      have hchildren := mergeTexts_element tag children []
      rw [List.append_nil, hn, events, List.cons.injEq] at hchildren
      have heq := List.append_cancel_right hchildren.2
      rw [eventsAll, mergeTexts_element, hrest, ← heq, events, List.cons_append, List.append_assoc,
        List.singleton_append]

theorem TextsApart.mergeTexts_events {n : Node} (h : n.TextsApart) :
    mergeTexts n.events = n.events := by
  induction h with
  | text => rfl
  | @element tag children ha _ ih =>
    have hmerge := mergeTexts_element tag children []
    rw [List.append_nil, mergeTexts_eventsAll ha ih] at hmerge
    exact hmerge

end Node

namespace Markup

theorem tagEvents_append (before behind : List Event) :
    tagEvents (before ++ behind) = tagEvents before ++ tagEvents behind :=
  List.filter_append _ _

theorem Balanced.append {ms ns : List Event} (hm : Balanced ms) (hn : Balanced ns) :
    Balanced (ms ++ ns) := by
  induction hm with
  | nil => exact hn
  | element hi _ _ ih =>
    rw [List.cons_append, List.append_assoc, List.cons_append]
    exact .element hi ih

theorem balanced_eventsAll {nodes : List Node} (h : ∀ n ∈ nodes, Balanced (tagEvents n.events)) :
    Balanced (tagEvents (Node.eventsAll nodes)) := by
  induction nodes with
  | nil => exact .nil
  | cons n nodes ih =>
    rw [Node.eventsAll, tagEvents_append]
    exact (h n List.mem_cons_self).append (ih fun m hm => h m (List.mem_cons_of_mem _ hm))

theorem tagEvents_element (tag : StartTag) (children : List Node) :
    tagEvents (Node.element tag children).events =
      .opening tag :: (tagEvents (Node.eventsAll children) ++ [.closing]) := by
  simp [Node.events, tagEvents, Event.isText]

theorem balanced_events (n : Node) : Balanced (tagEvents n.events) := by
  induction n with
  | text content => exact .nil
  | element tag children ih =>
    rw [tagEvents_element]
    exact .element (balanced_eventsAll ih) .nil

theorem oneElement_events (e : Element) : OneElement (tagEvents e.toNode.events) :=
  ⟨e.tag, tagEvents (Node.eventsAll e.children),
    balanced_eventsAll fun n _ => balanced_events n, tagEvents_element e.tag e.children⟩

theorem exists_of_tagEvents {read before behind : List Event} {tag : Event}
    (h : tagEvents read = before ++ tag :: behind) :
    ∃ front rest, read = front ++ tag :: rest ∧ tagEvents front = before ∧ tagEvents rest = behind := by
  obtain ⟨first, second, rfl, hf, hs⟩ := List.filter_eq_append_iff.1 h
  obtain ⟨texts, rest, rfl, ht, -, hr⟩ := List.filter_eq_cons_iff.1 hs
  refine ⟨first ++ texts, rest, by rw [List.append_assoc], ?_, hr⟩
  rw [tagEvents_append, tagEvents, hf, tagEvents, List.filter_eq_nil_iff.2 ht, List.append_nil]

def Token.events (place : Nat → Position) : Nat × Token → List Event
  | (offset, .opening content) => [.opening (startTag (place offset) content)]
  | (offset, .empty content) => [.opening (startTag (place offset) content), .closing]
  | (_, .closing _) => [.closing]
  | (_, .text content) => [.text content]
  | (_, .cdata content) => [.text content]
  | (_, .reference name) => [.text (referenceText name)]
  | (_, .aside _) => []

theorem flatMap_parts_eventsFrom {place : Nat → Position} {fault : Option Fault} {names : List Text}
    {ts : List (Nat × Token)} (h : (eventsFrom place fault names ts).fault = none) :
    (eventsFrom place fault names ts).items.flatMap Event.parts = ts.flatMap (Token.events place) := by
  induction ts generalizing names with
  | nil => rfl
  | cons t more ih =>
    obtain ⟨offset, token⟩ := t
    cases token with
    | opening content => exact congrArg (_ :: ·) (ih h)
    | empty content => exact congrArg (_ :: _ :: ·) (ih h)
    | closing content =>
      cases names with
      | nil => cases h
      | cons name names =>
        rw [eventsFrom] at h ⊢
        by_cases hn : endName content = name
        · rw [if_pos hn] at h ⊢
          exact congrArg (_ :: ·) (ih h)
        · rw [if_neg hn] at h
          cases h
    | text content => exact congrArg (_ :: ·) (ih h)
    | cdata content => exact congrArg (_ :: ·) (ih h)
    | reference name => exact congrArg (_ :: ·) (ih h)
    | aside content => exact ih h

end Markup
end Docmark
