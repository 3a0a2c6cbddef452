import Mathlib.Data.List.Chain
import Docmark.Markup.Node

namespace Docmark.Node

@[elab_as_elim, induction_eliminator]
theorem induction {motive : Node → Prop} (text : ∀ content, motive (.text content))
    (element : ∀ tag children, (∀ n ∈ children, motive n) → motive (.element tag children))
    (n : Node) : motive n := by
  apply @Node.rec motive (fun nodes => ∀ n ∈ nodes, motive n)
  · exact text
  · exact element
  · intro n hn
    exact absurd hn List.not_mem_nil
  · intro n nodes hn hs m hm
    rcases List.mem_cons.1 hm with rfl | hm
    · exact hn
    · exact hs m hm

def isText : Node → Bool
  | .text _ => true
  | .element _ _ => false

def Apart (nodes : List Node) : Prop :=
  nodes.IsChain fun m n => ¬ (m.isText ∧ n.isText)

mutual

def unplaced : Node → Node
  | .text content => .text content
  | .element tag children => .element { tag with position := ⟨0, 0⟩ } (unplacedAll children)

def unplacedAll : List Node → List Node
  | [] => []
  | n :: nodes => unplaced n :: unplacedAll nodes

end

theorem unplacedAll_eq_map (nodes : List Node) : unplacedAll nodes = nodes.map unplaced := by
  induction nodes with
  | nil => rfl
  | cons n nodes ih => rw [unplacedAll, ih, List.map_cons]

theorem isText_unplaced (n : Node) : n.unplaced.isText = n.isText := by
  cases n <;> rfl

theorem map_isText_of_unplacedAll {ns ms : List Node} (h : unplacedAll ns = unplacedAll ms) :
    ns.map isText = ms.map isText := by
  have := congrArg (List.map isText) h
  simpa only [unplacedAll_eq_map, List.map_map, Function.comp_def, isText_unplaced] using this

end Docmark.Node
