import Rulebook.Node.Walk

/-!
# Rebuilding a tree from its leaves

## Main definitions

* `Node.rebuild`: a tree made anew, node by node in postorder
* `Node.copy`: the same tree with new identities
* `Node.withMarks`, `Node.reset`: a tree with the flags and counts of an evaluation, or with none
-/

namespace Rulebook

namespace Node

section Rebuild

variable {σ : Type}

/-- Replaces the children of `n` by the first of the finished nodes, the last one of which comes
first, and puts the new node in front of them. -/
def rebuildStep (make : Node → Kind Node → List Node → σ → Node × σ) (n : Node) :
    List Node × σ → List Node × σ
  | (built, s) =>
    let arity := n.childNodes.length
    let (kind, children) := n.kind.refill (built.take arity).reverse
    let (n', s) := make n kind children s
    (n' :: built.drop arity, s)

/-- Makes each node of a tree anew, after its children. The maker gets the old node and the new
variant and generic children. -/
def rebuild (make : Node → Kind Node → List Node → σ → Node × σ) (s : σ) (n : Node) : Node × σ :=
  match n.walkPost (fun n _ => rebuildStep make n) ([], s) with
  | (n' :: _, s) => (n', s)
  | ([], s) => (n, s)

end Rebuild

/-- The same tree with new identities. It shares none with the old tree, its nodes name their
owners as parents, and its root has no parent. -/
def copy (n : Node) : Fresh Node := fun next =>
  n.rebuild (fun n kind children id =>
    let (new, id) := freshId id
    ((linked new kind children).withSpan n.span n.line, id)) next

/-- Replaces the variant of each node, keeping its operands. -/
def mapKinds (f : Node → Kind Node → Kind Node) (n : Node) : Node :=
  (n.rebuild (fun n kind children (_ : Unit) =>
    ({ n with kind := f n kind, children }, ())) ()).1

end Node

/-! ## Notes of an evaluation -/

namespace Node

/-- A tree whose consequences are flagged and whose rules are counted as given. -/
def withMarks (executed : NodeId → Bool) (activations : NodeId → Nat) (n : Node) : Node :=
  n.mapKinds fun n kind =>
    match kind with
    | .consequence c => .consequence { c with executed := executed n.id }
    | .rule head body => .rule { head with activations := activations n.id } body
    | kind => kind

/-- A tree without flags and counts. -/
def reset (n : Node) : Node :=
  n.withMarks (fun _ => false) (fun _ => 0)

end Node

end Rulebook
