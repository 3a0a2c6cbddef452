import Docmark.Proofs.Builder
import Docmark.Proofs.DocumentText

namespace Docmark.Markup

theorem read_comment {content : Text} (h : ¬ ['-', '-'] <:+: content) (rest : Text) :
    Token.read '<' ('!' :: '-' :: '-' :: (content ++ '-' :: '-' :: '>' :: rest)) =
      .ok (.aside ('!' :: '-' :: '-' :: content ++ ['-', '-']), rest) := by
  have hpart : ¬ ['-', '-'] ++ ['>'] <:+: content := by
    intro hi
    exact h ((List.prefix_append ['-', '-'] ['>']).isInfix.trans hi)
  have hcut := Text.cutAt?_append (by decide) hpart rest
  change Text.cutAt? "-->" (content ++ '-' :: '-' :: '>' :: rest) = _ at hcut
  rw [Token.read, if_pos rfl, Token.readMarkup, Token.readBang, hcut]

theorem read_instruction {content : Text} (h : ¬ ['?', '>'] <:+: '?' :: content) (rest : Text) :
    Token.read '<' ('?' :: (content ++ '?' :: '>' :: rest)) =
      .ok (.aside ('?' :: content ++ ['?']), rest) := by
  have hpart : ¬ ['?'] ++ ['>'] <:+: content := by
    intro hi
    exact h (hi.trans (List.suffix_cons '?' content).isInfix)
  have hcut := Text.cutAt?_append (by decide) hpart rest
  change Text.cutAt? "?>" (content ++ '?' :: '>' :: rest) = _ at hcut
  rw [Token.read, if_pos rfl, Token.readMarkup, Token.readInstruction, hcut]
  intro t ht
  cases content with
  | nil => cases ht
  | cons c cs =>
    rw [List.cons_append] at ht
    rw [(List.cons.inj ht).1] at h
    exact h (List.prefix_append ['?', '>'] cs).isInfix

theorem read_cdata {content : Text} (h : ¬ [']', ']', '>'] <:+: content) (rest : Text) :
    Token.read '<' ('!' :: '[' :: 'C' :: 'D' :: 'A' :: 'T' :: 'A' :: '[' ::
      (content ++ ']' :: ']' :: '>' :: rest)) = .ok (.cdata content, rest) := by
  have hpart : ¬ [']', ']'] ++ ['>'] <:+: ['C', 'D', 'A', 'T', 'A', '['] ++ content := by
    simpa [List.infix_cons_iff] using h
  have hcut := Text.cutAt?_append (by decide) hpart rest
  change Text.cutAt? "]]>"
    ('C' :: 'D' :: 'A' :: 'T' :: 'A' :: '[' :: (content ++ ']' :: ']' :: '>' :: rest)) = _ at hcut
  have hopen : Text.dropOpening? "CDATA[" (['C', 'D', 'A', 'T', 'A', '['] ++ content) = some content :=
    Text.dropOpening?_eq_some.2 rfl
  rw [Token.read, if_pos rfl, Token.readMarkup, Token.readBang, hcut]
  dsimp only
  rw [hopen]

theorem read_reference {name : Text} (hend : ';' ∉ name) (hamp : '&' ∉ name) (hless : '<' ∉ name)
    (rest : Text) : Token.read '&' (name ++ ';' :: rest) = .ok (.reference name, rest) := by
  have hin : ∀ x ∈ name, (!(x == ';' || x == '&' || x == '<')) = true := by
    intro x hx
    simp only [Bool.not_eq_true', Bool.or_eq_false_iff, beq_eq_false_iff_ne]
    exact ⟨⟨ne_of_mem_of_not_mem hx hend, ne_of_mem_of_not_mem hx hamp⟩, ne_of_mem_of_not_mem hx hless⟩
  have hout : ∀ x ∈ (';' :: rest).head?, (!(x == ';' || x == '&' || x == '<')) = false := by
    intro x hx
    rw [List.head?_cons, Option.mem_some_iff] at hx
    rw [← hx]
    decide
  rw [Token.read, if_neg (by decide), if_pos rfl, Token.readReference,
    Text.dropWhile_append hin hout, Text.takeWhile_append hin hout]
  rfl

theorem read_reference_of_names {name : Text} {c : Char} (h : Reference.Names name c) (rest : Text) :
    Token.read '&' (name ++ ';' :: rest) = .ok (.reference name, rest) :=
  read_reference (Reference.not_mem_of_names h (by decide)) (Reference.not_mem_of_names h (by decide))
    (Reference.not_mem_of_names h (by decide)) rest

theorem AsideText.read {t : Text} (h : AsideText t) :
    ∃ s content, t = '<' :: s ∧ ∀ rest, Token.read '<' (s ++ rest) = .ok (.aside content, rest) := by
  cases h with
  | @comment content hc =>
    refine ⟨_, '!' :: '-' :: '-' :: content ++ ['-', '-'], rfl, ?_⟩
    intro rest
    have hread := read_comment hc rest
    simpa using hread
  | @instruction content hi =>
    refine ⟨_, '?' :: content ++ ['?'], rfl, ?_⟩
    intro rest
    have hread := read_instruction hi rest
    simpa using hread

namespace Builder

theorem addText_addText (b : Builder) (s t : Text) :
    (b.addText s).addText t = b.addText (s ++ t) := by
  rcases b with ⟨_ | ⟨e, others⟩, root⟩
  · rfl
  · simp [addText, appendText_appendText]

theorem foldl_addText (b : Builder) (s t : Text) :
    t.foldl (fun b c => b.addText [c]) (b.addText s) = b.addText (s ++ t) := by
  induction t generalizing s with
  | nil => rw [List.append_nil, List.foldl_nil]
  | cons c cs ih => rw [List.foldl_cons, addText_addText, ih, List.append_assoc, List.singleton_append]

def add (b : Builder) : Node → Except Malformed Builder
  | .text content => .ok (b.addText content)
  | .element tag children => b.attach ⟨tag, children⟩

def conclude (b : Builder) (read : Reading Event) : Except ParseError Document :=
  match b.run read.items, read.fault with
  | .error cause, _ => .error (.malformed cause)
  | .ok _, some fault => .error (.markup fault)
  | .ok builder, none =>
    match builder.finish with
    | .ok root => .ok ⟨root⟩
    | .error cause => .error (.malformed cause)

theorem conclude_cons {b next : Builder} {event : Event} (h : b.step event = .ok next)
    (read : Reading Event) : b.conclude (.cons event read) = next.conclude read := by
  have hrun : b.run (event :: read.items) = next.run read.items := by
    rw [run, h]
    rfl
  rw [conclude, Reading.cons, hrun]
  rfl

theorem add_pending {tag : StartTag} {others : List Element} {root : Option Element}
    {before more : List Node} {n : Node} (h : Node.Apart (before ++ n :: more)) :
    add ⟨⟨tag, before⟩ :: others, root⟩ n = .ok ⟨⟨tag, before ++ [n]⟩ :: others, root⟩ := by
  cases n with
  | text content =>
    have hlast : ∀ m ∈ before.getLast?, m.isText = false := by
      intro m hm
      have hapart := (List.isChain_append.1 h).2.2 m hm (.text content) rfl
      simpa [Node.isText] using hapart
    rw [add, addText]
    dsimp only
    rw [appendText_of_not_isText content hlast]
  | element tag children => rfl

theorem foldlM_add_pending {tag : StartTag} {others : List Element} {root : Option Element}
    {before nodes : List Node} (h : Node.Apart (before ++ nodes)) :
    nodes.foldlM add ⟨⟨tag, before⟩ :: others, root⟩ =
      .ok ⟨⟨tag, before ++ nodes⟩ :: others, root⟩ := by
  induction nodes generalizing before with
  | nil =>
    rw [List.append_nil]
    rfl
  | cons n nodes ih =>
    rw [List.append_cons] at h ⊢
    rw [List.foldlM_cons, add_pending (List.append_cons before n nodes ▸ h)]
    exact ih h

theorem of_foldlM_add_cons {b next : Builder} {n : Node} {nodes : List Node}
    (h : (n :: nodes).foldlM add b = .ok next) :
    ∃ mid, b.add n = .ok mid ∧ nodes.foldlM add mid = .ok next := by
  rw [List.foldlM_cons] at h
  cases hn : b.add n with
  | error cause =>
    rw [hn] at h
    cases h
  | ok mid =>
    rw [hn] at h
    exact ⟨mid, rfl, h⟩

end Builder

def resume (place : Nat → Position) (names : List Text) (b : Builder) (offset : Nat) (t : Text) :
    Except ParseError Document :=
  let read := tokensFrom offset t
  b.conclude (eventsFrom place read.fault names read.items)

theorem tokensFrom_cons {c : Char} {t rest : Text} {token : Token}
    (h : Token.read c t = .ok (token, rest)) (offset : Nat) :
    tokensFrom offset (c :: t) =
      .cons (offset, token) (tokensFrom (offset + Text.byteSize token.source) rest) := by
  rw [tokensFrom]
  split
  · next he =>
    rw [h] at he
    cases he
  · next ho =>
    rw [h] at ho
    cases ho
    rfl

section

variable {place : Nat → Position} {names : List Text} {b : Builder} {offset : Nat} {c : Char}
  {t rest : Text}

theorem resume_opening {tag : StartTag} (hp : PlainTag tag) {content : Text}
    (h : TagText tag content) :
    resume place names b offset ('<' :: (content ++ '>' :: rest)) =
      resume place (tag.name :: names)
        { b with pending := ⟨{ tag with position := place offset }, []⟩ :: b.pending }
        (offset + Text.byteSize (Token.opening content).source) rest := by
  rw [resume, tokensFrom_cons (read_opening hp h rest), ← startTag_text hp h, ← tagName_text hp h]
  exact Builder.conclude_cons rfl _

theorem resume_empty_of_read {content : Text}
    (h : Token.read '<' (content ++ '/' :: '>' :: rest) = .ok (.empty content, rest)) {next : Builder}
    (hb : b.attach ⟨startTag (place offset) content, []⟩ = .ok next) :
    resume place names b offset ('<' :: (content ++ '/' :: '>' :: rest)) =
      resume place names next (offset + Text.byteSize (Token.empty content).source) rest := by
  have hstep : b.step (.empty (startTag (place offset) content)) = .ok next := hb
  rw [resume, tokensFrom_cons h]
  exact Builder.conclude_cons hstep _

theorem resume_empty {tag : StartTag} (hp : PlainTag tag) {content : Text} (h : TagText tag content)
    {next : Builder} (hb : b.attach ⟨{ tag with position := place offset }, []⟩ = .ok next) :
    resume place names b offset ('<' :: (content ++ '/' :: '>' :: rest)) =
      resume place names next (offset + Text.byteSize (Token.empty content).source) rest := by
  rw [← startTag_text hp h] at hb
  exact resume_empty_of_read (read_empty hp h rest) hb

theorem resume_closing {name space : Text} (hn : isPlainName name) (hs : space.all isSpace)
    {e : Element} {others : List Element} {root : Option Element} {next : Builder}
    (hb : (⟨others, root⟩ : Builder).attach e = .ok next) :
    resume place (name :: names) ⟨e :: others, root⟩ offset
        ('<' :: ('/' :: (name ++ space) ++ '>' :: rest)) =
      resume place names next (offset + Text.byteSize (Token.closing (name ++ space)).source)
        rest := by
  have hstep : (⟨e :: others, root⟩ : Builder).step .closing = .ok next := hb
  rw [resume, tokensFrom_cons (read_closing hn hs rest), Reading.cons, eventsFrom,
    if_pos (endName_text hn hs)]
  exact Builder.conclude_cons hstep _

theorem resume_text {content : Text} (h : Token.read c t = .ok (.text content, rest)) :
    resume place names b offset (c :: t) =
      resume place names (b.addText content) (offset + Text.byteSize content) rest := by
  rw [resume, tokensFrom_cons h]
  exact Builder.conclude_cons rfl _

theorem resume_cdata {content : Text} (h : Token.read c t = .ok (.cdata content, rest)) :
    resume place names b offset (c :: t) =
      resume place names (b.addText content)
        (offset + Text.byteSize (Token.cdata content).source) rest := by
  rw [resume, tokensFrom_cons h]
  exact Builder.conclude_cons rfl _

theorem resume_reference {name : Text} (h : Token.read c t = .ok (.reference name, rest)) :
    resume place names b offset (c :: t) =
      resume place names (b.addText (referenceText name))
        (offset + Text.byteSize (Token.reference name).source) rest := by
  rw [resume, tokensFrom_cons h]
  exact Builder.conclude_cons rfl _

theorem resume_aside {content : Text} (h : Token.read c t = .ok (.aside content, rest)) :
    resume place names b offset (c :: t) =
      resume place names b (offset + Text.byteSize (Token.aside content).source) rest := by
  rw [resume, tokensFrom_cons h]
  rfl

theorem resume_char (hc : Token.isText c) :
    resume place names b offset (c :: t) =
      resume place names (b.addText [c]) (offset + c.utf8Size) t := by
  have hread (d : Char) (hd : Token.isText d) (s : Text) :
      Token.read d s = .ok (.text (d :: s.takeWhile Token.isText), s.dropWhile Token.isText) := by
    simp only [Token.isText, Bool.not_eq_true', Bool.or_eq_false_iff, beq_eq_false_iff_ne] at hd
    rw [Token.read, if_neg hd.1, if_neg hd.2]
  cases t with
  | nil => exact resume_text (hread c hc [])
  | cons d ds =>
    have hfirst := hread c hc (d :: ds)
    by_cases hd : Token.isText d
    · rw [List.takeWhile_cons_of_pos hd, List.dropWhile_cons_of_pos hd] at hfirst
      rw [resume_text hfirst, resume_text (hread d hd ds), Builder.addText_addText]
      rw [Text.byteSize, Nat.add_assoc]
      rfl
    · rw [List.takeWhile_cons_of_neg hd, List.dropWhile_cons_of_neg hd] at hfirst
      exact resume_text hfirst

end

theorem resume_spells {written content : Text} (h : Reference.Spells Token.isText written content)
    (place : Nat → Position) (offset : Nat) :
    ∃ after, ∀ names b rest, resume place names b offset (written ++ rest) =
      resume place names (content.foldl (fun b c => b.addText [c]) b) after rest := by
  induction h generalizing offset with
  | nil => exact ⟨offset, fun names b rest => rfl⟩
  | @char c written content hc _ ih =>
    obtain ⟨after, ha⟩ := ih (offset + c.utf8Size)
    refine ⟨after, ?_⟩
    intro names b rest
    rw [List.cons_append, resume_char hc, ha, List.foldl_cons]
  | @reference name c written content hn _ ih =>
    obtain ⟨after, ha⟩ := ih (offset + Text.byteSize (Token.reference name).source)
    refine ⟨after, ?_⟩
    intro names b rest
    rw [List.append_assoc, List.cons_append, List.cons_append, resume_reference (read_reference_of_names hn _),
      referenceText, Reference.resolve?_of_names hn, ha, List.foldl_cons]

theorem resume_piece {content written : Text} (h : PieceText content written)
    (place : Nat → Position) (offset : Nat) :
    ∃ after, ∀ names b rest, resume place names b offset (written ++ rest) =
      resume place names (b.addText content) after rest := by
  cases h with
  | data hne hs =>
    obtain ⟨c, cs, rfl⟩ := List.exists_cons_of_ne_nil hne
    obtain ⟨after, ha⟩ := resume_spells hs place offset
    refine ⟨after, ?_⟩
    intro names b rest
    rw [ha, List.foldl_cons, Builder.foldl_addText, List.singleton_append]
  | cdata _ hc =>
    refine ⟨offset + Text.byteSize (Token.cdata content).source, ?_⟩
    intro names b rest
    have hread := read_cdata hc rest
    simpa using resume_cdata hread

theorem apart_of_unplacedAll {ns ms : List Node} (h : Node.unplacedAll ns = Node.unplacedAll ms)
    (hm : Node.Apart ms) : Node.Apart ns := by
  have hmap (nodes : List Node) :
      Node.Apart nodes ↔ (nodes.map Node.isText).IsChain fun a b : Bool => ¬ (a ∧ b) := by
    rw [Node.Apart, List.isChain_map]
  rw [hmap] at hm ⊢
  rwa [Node.map_isText_of_unplacedAll h]

theorem plainTag_of_regular {tag : StartTag} {children : List Node}
    (h : (Node.element tag children).isText ∨ (Node.element tag children).Regular) :
    PlainTag tag ∧ Node.Apart children ∧ ∀ n ∈ children, n.Regular := by
  rcases h with h | h
  · cases h
  · cases h with
    | element hp ha hs => exact ⟨hp, ha, hs⟩

theorem resume_element {place : Nat → Position} {names : List Text} {b next : Builder}
    {offset behind : Nat} {tag : StartTag} {content inner space rest : Text} {inside : List Node}
    (hp : PlainTag tag) (ht : TagText tag content) (hs : space.all isSpace) (ha : Node.Apart inside)
    (hi : ∀ names b next, inside.foldlM Builder.add b = .ok next → ∀ rest,
      resume place names b (offset + Text.byteSize (Token.opening content).source) (inner ++ rest) =
        resume place names next behind rest)
    (hb : b.attach ⟨{ tag with position := place offset }, inside⟩ = .ok next) :
    resume place names b offset
        ('<' :: (content ++ '>' :: (inner ++ '<' :: ('/' :: (tag.name ++ space) ++ '>' :: rest)))) =
      resume place names next (behind + Text.byteSize (Token.closing (tag.name ++ space)).source)
        rest := by
  have hchildren : Node.Apart ([] ++ inside) := ha
  rw [resume_opening hp ht, hi _ _ _ (Builder.foldlM_add_pending hchildren)]
  exact resume_closing hp.name hs hb

def Resumes (place : Nat → Position) (nodes : List Node) (t : Text) : Prop :=
  ∀ offset, ∃ read after, Node.unplacedAll read = Node.unplacedAll nodes ∧
    ∀ names b next, read.foldlM Builder.add b = .ok next → ∀ rest,
      resume place names b offset (t ++ rest) = resume place names next after rest

namespace Resumes

variable {place : Nat → Position} {nodes children : List Node} {tag : StartTag}
  {t content piece following inner space : Text}

theorem nil (place : Nat → Position) : Resumes place [] [] := by
  intro offset
  refine ⟨[], offset, rfl, ?_⟩
  intro names b next hb rest
  cases hb
  rfl

theorem aside (hw : AsideText content) (h : Resumes place nodes t) :
    Resumes place nodes (content ++ t) := by
  intro offset
  obtain ⟨s, content, rfl, hread⟩ := hw.read
  obtain ⟨read, after, hu, ha⟩ := h (offset + Text.byteSize (Token.aside content).source)
  refine ⟨read, after, hu, ?_⟩
  intro names b next hb rest
  rw [List.append_assoc, List.cons_append, resume_aside (hread _), ha names b next hb]

theorem text (hw : PieceText content piece) (h : Resumes place nodes t) :
    Resumes place (.text content :: nodes) (piece ++ t) := by
  intro offset
  obtain ⟨mid, hm⟩ := resume_piece hw place offset
  obtain ⟨read, after, hu, ha⟩ := h mid
  refine ⟨.text content :: read, after, congrArg (Node.text content :: ·) hu, ?_⟩
  intro names b next hb rest
  rw [List.append_assoc, hm, ha names (b.addText content) next hb]

theorem more (hw : PieceText content piece) (h : Resumes place (.text following :: nodes) t) :
    Resumes place (.text (content ++ following) :: nodes) (piece ++ t) := by
  -- What follows is read as a text node of its own, which then joins the piece in front of it.
  intro offset
  obtain ⟨mid, hm⟩ := resume_piece hw place offset
  obtain ⟨read, after, hu, ha⟩ := h mid
  cases read with
  | nil => cases hu
  | cons n read =>
    cases n with
    | element => cases hu
    | text found =>
      rw [Node.unplacedAll, Node.unplacedAll, Node.unplaced, Node.unplaced, List.cons.injEq,
        Node.text.injEq] at hu
      obtain ⟨rfl, hu⟩ := hu
      refine ⟨.text (content ++ found) :: read, after, congrArg (Node.text _ :: ·) hu, ?_⟩
      intro names b next hb rest
      rw [List.append_assoc, hm]
      apply ha names (b.addText content) next
      rw [List.foldlM_cons, Builder.add, Builder.addText_addText]
      exact hb

theorem empty (hp : PlainTag tag) (ht : TagText tag content) (h : Resumes place nodes t) :
    Resumes place (.element tag [] :: nodes) ('<' :: (content ++ '/' :: '>' :: t)) := by
  intro offset
  obtain ⟨read, after, hu, ha⟩ := h (offset + Text.byteSize (Token.empty content).source)
  refine ⟨.element { tag with position := place offset } [] :: read, after, congrArg (_ :: ·) hu, ?_⟩
  intro names b next hb rest
  obtain ⟨mid, hmid, hnext⟩ := Builder.of_foldlM_add_cons hb
  calc resume place names b offset ('<' :: (content ++ '/' :: '>' :: t) ++ rest)
    _ = resume place names b offset ('<' :: (content ++ '/' :: '>' :: (t ++ rest))) := by
      simp only [List.cons_append, List.append_assoc]
    _ = resume place names mid _ (t ++ rest) := resume_empty hp ht hmid
    _ = resume place names next after rest := ha names mid next hnext rest

theorem element (hp : PlainTag tag) (ht : TagText tag content) (hs : space.all isSpace)
    (hapart : Node.Apart children) (hc : Resumes place children inner) (h : Resumes place nodes t) :
    Resumes place (.element tag children :: nodes)
      ('<' :: (content ++ '>' :: (inner ++ '<' :: ('/' :: (tag.name ++ space) ++ '>' :: t)))) := by
  -- The children are read into a new innermost element, so they have to stand apart.
  intro offset
  obtain ⟨inside, behind, hui, hi⟩ := hc (offset + Text.byteSize (Token.opening content).source)
  obtain ⟨read, after, hu, ha⟩ := h (behind + Text.byteSize (Token.closing (tag.name ++ space)).source)
  have hinside : Node.Apart inside := apart_of_unplacedAll hui hapart
  refine ⟨.element { tag with position := place offset } inside :: read, after, ?_, ?_⟩
  · rw [Node.unplacedAll, Node.unplacedAll, Node.unplaced, Node.unplaced, hui, hu]
  intro names b next hb rest
  obtain ⟨mid, hmid, hnext⟩ := Builder.of_foldlM_add_cons hb
  calc resume place names b offset ('<' :: (content ++ '>' ::
        (inner ++ '<' :: ('/' :: (tag.name ++ space) ++ '>' :: t))) ++ rest)
    _ = resume place names b offset ('<' :: (content ++ '>' ::
        (inner ++ '<' :: ('/' :: (tag.name ++ space) ++ '>' :: (t ++ rest))))) := by
      simp only [List.cons_append, List.append_assoc]
    _ = resume place names mid _ (t ++ rest) := resume_element hp ht hs hinside hi hmid
    _ = resume place names next after rest := ha names mid next hnext rest

end Resumes

theorem resumes_nodes {nodes : List Node} {t : Text} (h : NodesText nodes t)
    (hn : ∀ n ∈ nodes, n.isText ∨ n.Regular) (place : Nat → Position) : Resumes place nodes t := by
  induction h with
  | nil => exact .nil place
  | aside hw _ ih => exact (ih hn).aside hw
  | text hw _ ih => exact (ih fun n hmem => hn n (List.mem_cons_of_mem _ hmem)).text hw
  | @more content piece following _ nodes hw _ ih =>
    apply (ih _).more hw
    intro n hmem
    obtain rfl | hmem := List.mem_cons.1 hmem
    · exact .inl rfl
    · exact hn n (List.mem_cons_of_mem _ hmem)
  | empty ht _ ih =>
    have hp := (plainTag_of_regular (hn _ List.mem_cons_self)).1
    exact (ih fun n hmem => hn n (List.mem_cons_of_mem _ hmem)).empty hp ht
  | element ht _ hs _ ihc ih =>
    obtain ⟨hp, hapart, hregular⟩ := plainTag_of_regular (hn _ List.mem_cons_self)
    have hchildren := ihc fun n hmem => .inr (hregular n hmem)
    exact .element hp ht hs hapart hchildren (ih fun n hmem => hn n (List.mem_cons_of_mem _ hmem))

theorem isText_of_isSpace {c : Char} (h : isSpace c) : Token.isText c := by
  simp only [isSpace, Bool.or_eq_true, beq_iff_eq] at h
  rcases h with ((rfl | rfl) | rfl) | rfl <;> decide

theorem resume_outside {t : Text} (h : OutsideText t) (place : Nat → Position) (offset : Nat) :
    ∃ after, ∀ names root rest, resume place names ⟨[], root⟩ offset (t ++ rest) =
      resume place names ⟨[], root⟩ after rest := by
  induction h generalizing offset with
  | nil => exact ⟨offset, fun names root rest => rfl⟩
  | @space c _ hc _ ih =>
    obtain ⟨after, ha⟩ := ih (offset + c.utf8Size)
    refine ⟨after, ?_⟩
    intro names root rest
    rw [List.cons_append, resume_char (isText_of_isSpace hc)]
    exact ha names root rest
  | aside hw _ ih =>
    obtain ⟨s, content, rfl, hread⟩ := hw.read
    obtain ⟨after, ha⟩ := ih (offset + Text.byteSize (Token.aside content).source)
    refine ⟨after, ?_⟩
    intro names root rest
    rw [List.append_assoc, List.cons_append, resume_aside (hread _), ha]

theorem resume_nil (place : Nat → Position) (offset : Nat) (root : Element) :
    resume place [] ⟨[], some root⟩ offset [] = .ok ⟨root⟩ := by
  rw [resume, tokensFrom]
  rfl

theorem head_outside {front body : Text} (hf : OutsideText front) (hb : body.head? = some '<') :
    ∀ c ∈ (front ++ body).head?, c = '<' ∨ isSpace c := by
  -- What a document starts with behind the byte order mark, which therefore is dropped just once.
  intro c hc
  cases hf with
  | nil =>
    rw [List.nil_append, hb] at hc
    exact Or.inl (Option.some.inj hc).symm
  | space hs =>
    exact Or.inr (Option.some.inj hc ▸ hs)
  | aside hw =>
    obtain ⟨s, content, rfl, -⟩ := hw.read
    exact Or.inl (Option.some.inj hc).symm

theorem head_element {tag : StartTag} {children nodes : List Node} {t : Text}
    (h : NodesText (.element tag children :: nodes) t) : t.head? = some '<' := by
  cases h with
  | aside hw =>
    obtain ⟨s, content, rfl, -⟩ := hw.read
    rfl
  | empty => rfl
  | element => rfl

theorem parse_eq_resume {mark t : Text} (hm : mark = [] ∨ mark = ['\ufeff'])
    (ht : ∀ c ∈ t.head?, c ≠ '\ufeff') :
    Document.parse (mark ++ t) = resume (Position.ofOffset t) [] Builder.start 0 t := by
  have hdrop : (Text.dropOpening? ['\ufeff'] (mark ++ t)).getD (mark ++ t) = t := by
    rcases hm with rfl | rfl
    · cases t with
      | nil => rfl
      | cons c cs => simp [Text.dropOpening?, Ne.symm (ht c rfl)]
    · rfl
  have htokens : tokens t = tokensFrom 0 t := by
    unfold tokens
    split
    · exact absurd rfl (ht '\ufeff' rfl)
    · rfl
  rw [Document.parse, hdrop, events, htokens]
  rfl

theorem eq_toNode_of_unplacedAll {tag : StartTag} {children read : List Node}
    (h : Node.unplacedAll read = Node.unplacedAll [.element tag children]) :
    ∃ root : Element, read = [root.toNode] ∧
      root.toNode.unplaced = (Node.element tag children).unplaced := by
  rw [Node.unplacedAll_eq_map, Node.unplacedAll_eq_map, List.map_singleton,
    List.map_eq_singleton_iff] at h
  obtain ⟨n, rfl, hn⟩ := h
  cases n with
  | text content => cases hn
  | element found inside => exact ⟨⟨found, inside⟩, rfl, hn⟩

end Docmark.Markup

namespace Docmark.Document

open Markup

/-- A document can be written, and what is read from any text it is written as is that document,
save for the places of its elements. -/
theorem parse_documentText {d : Document} (h : d.root.toNode.Regular) :
    (∃ source, DocumentText d source) ∧
      ∀ source, DocumentText d source →
        ∃ read, parse source = .ok read ∧ read.root.toNode.unplaced = d.root.toNode.unplaced := by
  refine ⟨exists_documentText h, ?_⟩
  rintro _ (@⟨mark, front, body, behind, hm, hf, hb, hbehind⟩)
  have hhead : (body ++ behind).head? = some '<' := by
    rw [List.head?_append, head_element hb]
    rfl
  have hmark : ∀ c ∈ (front ++ (body ++ behind)).head?, c ≠ '\ufeff' := by
    rintro c hc rfl
    rcases head_outside hf hhead _ hc with hlt | hs
    · exact absurd hlt (by decide)
    · exact absurd hs (by decide)
  let place := Position.ofOffset (front ++ (body ++ behind))
  obtain ⟨atBody, hfront⟩ := resume_outside hf place 0
  obtain ⟨read, atBehind, hu, hbody⟩ :=
    resumes_nodes hb (fun n hn => Or.inr (List.mem_singleton.1 hn ▸ h)) place atBody
  obtain ⟨atEnd, hrest⟩ := resume_outside hbehind place atBehind
  obtain ⟨root, rfl, hroot⟩ := eq_toNode_of_unplacedAll hu
  refine ⟨⟨root⟩, ?_, hroot⟩
  calc parse (mark ++ (front ++ (body ++ behind)))
    _ = resume place [] Builder.start 0 (front ++ (body ++ behind)) := parse_eq_resume hm hmark
    _ = resume place [] Builder.start atBody (body ++ behind) := hfront [] none (body ++ behind)
    _ = resume place [] ⟨[], some root⟩ atBehind (behind ++ []) := by
      rw [hbody [] Builder.start ⟨[], some root⟩ rfl, List.append_nil]
    _ = resume place [] ⟨[], some root⟩ atEnd [] := hrest [] (some root) []
    _ = .ok ⟨root⟩ := resume_nil place atEnd root

def greeting : Document :=
  ⟨⟨⟨"a", [("k", "<b")], ⟨1, 1⟩⟩, [.text "x&<", .element ⟨"b", [], ⟨1, 1⟩⟩ []]⟩⟩

def greetingText : Text :=
  "\ufeff<?xml version=\"1.0\"?>\n<a k=\"&lt;b\"><!-- y -->x&amp;<![CDATA[<]]><b/></a>"

theorem regular_greeting : greeting.root.toNode.Regular := by
  apply Node.Regular.element
  · exact ⟨by decide, by decide, by decide⟩
  · unfold Node.Apart
    decide
  · intro n hn
    rcases List.mem_pair.1 hn with rfl | rfl
    · exact .text (by decide)
    · exact .element ⟨by decide, by decide, by decide⟩ .nil (by simp)

theorem documentText_greeting : DocumentText greeting greetingText := by
  have hvalue : Reference.Spells isValueChar ('&' :: ['l', 't'] ++ ';' :: ['b']) ['<', 'b'] :=
    .reference .less (.char rfl .nil)
  have hattribute : AttributesText [(['k'], ['<', 'b'])] ([' '] ++ (['k'] ++ ([] ++ '=' ::
      ([] ++ '"' :: (('&' :: ['l', 't'] ++ ';' :: ['b']) ++ '"' :: []))))) :=
    .cons (by decide) (by decide) rfl rfl hvalue (.nil rfl)
  have hx : Reference.Spells Token.isText ('x' :: ('&' :: ['a', 'm', 'p'] ++ ';' :: [])) ['x', '&'] :=
    .char rfl (.reference .ampersand .nil)
  have hless : PieceText ['<'] _ := .cdata (by decide) (by decide)
  have hcomment : AsideText _ := .comment (by decide : ¬ ['-', '-'] <:+: [' ', 'y', ' '])
  have hopen : ¬ ['?', '>'] <:+: '?' :: ['x', 'm', 'l', ' ', 'v', 'e', 'r', 's', 'i', 'o', 'n', '=',
      '"', '1', '.', '0', '"'] := by
    rw [← Text.holds_iff]
    decide
  have hxml : AsideText _ := .instruction hopen
  have hempty : NodesText [.element ⟨"b", [], ⟨1, 1⟩⟩ []] _ := .empty ⟨[], .nil rfl, rfl⟩ .nil
  have hchildren : NodesText [.text (['x', '&'] ++ ['<']), .element ⟨"b", [], ⟨1, 1⟩⟩ []] _ :=
    .aside hcomment (.more (.data (by decide) hx) (.text hless hempty))
  have hbody : NodesText [greeting.root.toNode] _ :=
    .element ⟨_, hattribute, rfl⟩ hchildren List.all_nil .nil
  have hfront : OutsideText _ := .aside hxml (.space (by decide : isSpace '\n') .nil)
  exact .intro (Or.inr rfl) hfront hbody .nil

theorem parse_documentText_greeting :
    greeting.root.toNode.Regular ∧
      ∃ read, parse greetingText = .ok read ∧
        read.root.toNode.unplaced = greeting.root.toNode.unplaced :=
  ⟨regular_greeting, (parse_documentText regular_greeting).2 greetingText documentText_greeting⟩

end Docmark.Document
