import Reshape.Proofs.Spec.Data
import Reshape.Proofs.Value.Nodes

/-!
# Where data stops being a mapping

Data that describes no mapping is refused with a pointer: a slash before each part of the place, and
two escapes for what would otherwise be read as a slash or an escape. Read again, the pointer is the
place of the first node in document order that is neither text nor container.
-/

namespace Reshape.Spec

/-! ### Pointers read again -/

/-- The first of some nodes that may not stand in the data of a mapping, and its place. -/
def FirstRefused (nodes : List (List String × Value)) (place : List String) (node : Value) : Prop :=
  ∃ before after, nodes = before ++ (place, node) :: after ∧
    (∀ earlier ∈ before, earlier.2.IsMappingNode) ∧ ¬ node.IsMappingNode

section

variable {nodes more : List (List String × Value)} {place : List String} {node value : Value}

theorem FirstRefused.append (hfirst : FirstRefused nodes place node)
    (more : List (List String × Value)) : FirstRefused (nodes ++ more) place node := by
  obtain ⟨before, after, rfl, hbefore, hnode⟩ := hfirst
  exact ⟨before, after ++ more, by rw [List.append_assoc, List.cons_append], hbefore, hnode⟩

theorem FirstRefused.behind (hfirst : FirstRefused more place node)
    (hnodes : ∀ earlier ∈ nodes, earlier.2.IsMappingNode) :
    FirstRefused (nodes ++ more) place node := by
  obtain ⟨before, after, rfl, hbefore, hnode⟩ := hfirst
  refine ⟨nodes ++ before, after, (List.append_assoc _ _ _).symm, ?_, hnode⟩
  exact List.forall_mem_append.mpr ⟨hnodes, hbefore⟩

end

end Reshape.Spec
