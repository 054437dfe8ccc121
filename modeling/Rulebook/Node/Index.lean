import Rulebook.Node.Walk
import Std.Data.TreeMap

/-!
# Looking up nodes by identity

The owner of a node is taken from the tree itself, not from the parent links that nodes store.

## Main definitions

* `NodeIndex`: the nodes of a tree and their owners, by identity
* `NodeIndex.get?`, `NodeIndex.parent?`, `NodeIndex.path?`: a node, its owner, and all nodes from
  the root down to it
* `NodeIndex.Ends`: the climb to the root comes to its end
-/

namespace Rulebook

/-- The nodes of a tree and the identities of their owners, by identity. -/
structure NodeIndex where
  nodes : Std.TreeMap Nat Node := ∅
  owners : Std.TreeMap Nat NodeId := ∅

namespace NodeIndex

/-- Enters a node, and itself as the owner of its children. -/
def enter (index : NodeIndex) (n : Node) : NodeIndex :=
  { nodes := index.nodes.insert n.id.number n
    owners := n.childNodes.foldl (fun owners c => owners.insert c.id.number n.id) index.owners }

/-- Enters the pending nodes and those below them, the last child of a node before the others. Of
nodes with one identity the one that is entered last is found: it is the first in postorder. -/
def enterAll (index : NodeIndex) : List Node → NodeIndex
  | [] => index
  | n :: pending => (index.enter n).enterAll (n.childNodes.reverse ++ pending)
termination_by pending => Node.totalSize pending
decreasing_by
  have := n.totalSize_childNodes_lt
  simp only [Node.totalSize_append, Node.totalSize_reverse, Node.totalSize]
  omega

/-- The index of a tree. -/
def ofNode (root : Node) : NodeIndex :=
  enterAll {} [root]

/-- The node with an identity. -/
def get? (index : NodeIndex) (id : NodeId) : Option Node :=
  index.nodes[id.number]?

/-- The identity of the owner of a node. -/
def owner? (index : NodeIndex) (id : NodeId) : Option NodeId :=
  index.owners[id.number]?

/-- The owner of a node. -/
def parent? (index : NodeIndex) (id : NodeId) : Option Node :=
  (index.owner? id).bind index.get?

/-- Goes from `id` to its owner and on upwards, and puts the nodes met in front of `below`. There is
no path if one of the nodes is missing. The outer `none` stands for a climb that goes on for ever,
since it has come to a node twice. -/
def climb (index : NodeIndex) (id : NodeId) (below : List Node) : Option (Option (List Node)) :=
  match index.get? id with
  | none => some none
  | some n =>
    match index.owner? id with
    | none => some (some (n :: below))
    | some owner => index |>.climb owner (n :: below)
partial_fixpoint

/-- The climb from a node comes to its end. So it is if identities are distinct; a node that shares
its identity with one above it is its own owner, or the owner of its owners. -/
def Ends (index : NodeIndex) (id : NodeId) : Prop :=
  (index.climb id []).isSome

/-- The nodes from the root down to the node with an identity, provided that the climb ends. -/
def path? (index : NodeIndex) (id : NodeId) : Option (List Node) :=
  (index.climb id []).join

/-- The number of nodes. -/
def size (index : NodeIndex) : Nat :=
  index.nodes.size

/-- Whether there are no nodes. -/
def isEmpty (index : NodeIndex) : Bool :=
  index.nodes.isEmpty

end NodeIndex

end Rulebook
