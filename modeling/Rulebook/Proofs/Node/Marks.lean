import Rulebook.Proofs.Node.Rebuild

/-!
# Marked trees

A tree that is marked with the notes of an evaluation has the same nodes, in the same order, and
each of them carries the note that is about it.

## Main results

* `Node.nodes_withMarks`: the nodes of a marked tree, in preorder, are the marked nodes
* `Node.rule?_withMarks`, `Node.consequence?_withMarks`: what the marked nodes carry
-/

namespace Rulebook

namespace Node

variable (executed : NodeId → Bool) (activations : NodeId → Nat)

theorem nodes_withMarks (n : Node) :
    (n.withMarks executed activations).nodes =
      n.nodes.map (withMarks executed activations) := by
  refine nodes_mapKinds (fun n k => ?_) n
  cases k <;> rfl

@[simp] theorem id_withMarks (n : Node) : (n.withMarks executed activations).id = n.id := by
  rw [withMarks, mapKinds_eq]

theorem rule?_withMarks (n : Node) :
    (n.withMarks executed activations).kind.rule? =
      n.kind.rule?.map fun head => { head with activations := activations n.id } := by
  rw [withMarks, mapKinds_eq]
  cases n.kind <;> rfl

theorem consequence?_withMarks (n : Node) :
    (n.withMarks executed activations).kind.consequence? =
      n.kind.consequence?.map fun c => { c with executed := executed n.id } := by
  rw [withMarks, mapKinds_eq]
  cases n.kind <;> rfl

end Node

end Rulebook
