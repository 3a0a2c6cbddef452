import Docmark.Proofs.Twins

namespace Docmark

namespace Node

/-- The same nodes, but that texts outside `code` and `name` elements are exchanged for related ones. -/
inductive Exchanged (R : Text → Text → Prop) : List Node → List Node → Prop
  | nil : Exchanged R [] []
  | same {n : Node} {ns ms : List Node} : Exchanged R ns ms → Exchanged R (n :: ns) (n :: ms)
  | text {s t : Text} {ns ms : List Node} : R s t → Exchanged R ns ms →
    Exchanged R (.text s :: ns) (.text t :: ms)
  | element {tag : StartTag} {children others ns ms : List Node} : tag.name ≠ "code" →
    tag.name ≠ "name" → Exchanged R children others → Exchanged R ns ms →
    Exchanged R (.element tag children :: ns) (.element tag others :: ms)

theorem Exchanged.mono {R Q : Text → Text → Prop} (hR : ∀ s t, R s t → Q s t) {ns ms : List Node}
    (h : Exchanged R ns ms) : Exchanged Q ns ms := by
  induction h with
  | nil => exact .nil
  | same _ ih => exact .same ih
  | text ht _ ih => exact .text (hR _ _ ht) ih
  | element hc hn _ _ ihc ih => exact .element hc hn ihc ih

theorem twins_of_exchanged (options : Options) {ns ms : List Node}
    (h : Exchanged Text.Rewraps ns ms) : List.Forall₂ (Twin options) ns ms := by
  induction h with
  | nil => exact .nil
  | same _ ih => exact .cons (Twin.refl options _) ih
  | text ht _ ih => exact .cons (.text ht) ih
  | @element tag children others ns ms hc hn _ _ ihc ih =>
    refine .cons ?_ ih
    exact .element (e := ⟨tag, children⟩) (f := ⟨tag, others⟩)
      ((insideTwins_of_twins ihc tag).element fun h => absurd h (not_or.2 ⟨hc, hn⟩))

end Node

namespace Document

open Node

theorem render_of_exchanged {d d' : Document}
    (h : Exchanged Text.Rewraps [d.root.toNode] [d'.root.toNode]) (options : Options)
    (resolver : Resolver) : d.render options resolver = d'.render options resolver := by
  obtain ⟨⟨tag, children⟩⟩ := d
  obtain ⟨⟨tag', others⟩⟩ := d'
  cases h with
  | same => rfl
  | element hc hn hchildren =>
    have htwins := twins_of_exchanged options hchildren
    apply render_of_twin
    · exact (insideTwins_of_twins htwins tag).element fun h => absurd h (not_or.2 ⟨hc, hn⟩)
    · exact map_face_members_of_twins htwins

/-- Collapsing blanks anywhere in running text changes nothing about the page, and no more does any
other change to how this text is wrapped. -/
theorem wrapping_leaves_no_trace (options : Options) (resolver : Resolver) (d d' : Document) :
    (Exchanged (fun s t => t = Text.collapse s) [d.root.toNode] [d'.root.toNode] →
      d'.render options resolver = d.render options resolver) ∧
    (Exchanged Text.Rewraps [d.root.toNode] [d'.root.toNode] →
      d'.render options resolver = d.render options resolver) := by
  have hwrapped : Exchanged Text.Rewraps [d.root.toNode] [d'.root.toNode] →
      d'.render options resolver = d.render options resolver :=
    fun h => (render_of_exchanged h options resolver).symm
  refine ⟨fun h => hwrapped (h.mono ?_), hwrapped⟩
  rintro s t rfl
  exact Text.rewraps_collapse s

def boxSummary (gap : Text) : List Node := [
  .text ("Holds" ++ gap ++ "one" ++ gap), .element ⟨"b", [], ⟨5, 8⟩⟩ [.text (gap ++ "thing")],
  .element ⟨"code", [], ⟨6, 8⟩⟩ [.text "open\n  close"]]

def boxDocument (gap : Text) : Document :=
  ⟨⟨⟨"doc", [], ⟨1, 1⟩⟩, [.element ⟨"members", [], ⟨2, 2⟩⟩ [
    .element ⟨"member", [("name", "T:Box")], ⟨3, 4⟩⟩ [
      .element ⟨"summary", [], ⟨4, 6⟩⟩ (boxSummary gap)]]]⟩⟩

theorem exchanged_boxDocument {R : Text → Text → Prop} {gap other : Text}
    (hline : R ("Holds" ++ gap ++ "one" ++ gap) ("Holds" ++ other ++ "one" ++ other))
    (hbold : R (gap ++ "thing") (other ++ "thing")) :
    Exchanged R [(boxDocument gap).root.toNode] [(boxDocument other).root.toNode] := by
  have hsummary : Exchanged R (boxSummary gap) (boxSummary other) :=
    .text hline (.element (by decide) (by decide) (.text hbold .nil) (.same .nil))
  dsimp only [boxDocument, Element.toNode]
  exact .element (by decide) (by decide) (.element (by decide) (by decide)
    (.element (by decide) (by decide) (.element (by decide) (by decide) hsummary .nil) .nil) .nil) .nil

theorem wrapping_leaves_no_trace_box :
    let d := boxDocument "\n    "
    let collapsed := boxDocument " "
    let tabbed := boxDocument "\t\t"
    Exchanged (fun s t => t = Text.collapse s) [d.root.toNode] [collapsed.root.toNode] ∧
      Exchanged Text.Rewraps [d.root.toNode] [tabbed.root.toNode] ∧
      ∀ options resolver, collapsed.render options resolver = d.render options resolver ∧
        tabbed.render options resolver = d.render options resolver := by
  intro d collapsed tabbed
  have hcollapsed : Exchanged (fun s t => t = Text.collapse s) [d.root.toNode]
      [collapsed.root.toNode] := exchanged_boxDocument (by decide) (by decide)
  have hgap : Text.Rewraps "\n    " "\t\t" :=
    .blanks (by decide) (by decide) (by decide) (by decide)
  have htabbed : Exchanged Text.Rewraps [d.root.toNode] [tabbed.root.toNode] :=
    exchanged_boxDocument ((((Text.Rewraps.refl _).append hgap).append (.refl _)).append hgap)
      (hgap.append (.refl _))
  refine ⟨hcollapsed, htabbed, fun options resolver => ⟨?_, ?_⟩⟩
  · exact (wrapping_leaves_no_trace options resolver d collapsed).1 hcollapsed
  · exact (wrapping_leaves_no_trace options resolver d tabbed).2 htabbed

end Document
end Docmark
