import Rulebook.Node.Walk

/-!
# Editing a tree

A node of a tree is named by its path: at each level the position of the next node among the
operands and generic children.

## Main definitions

* `Node.at?`, `Node.modifyAt`: the node at a path, and the tree with this node changed
* `Node.activate`, `Node.note`, `Node.rename`: other states, notes and names
* `Node.removeChild`: the node without one of its generic children
-/

namespace Rulebook

namespace Node

/-! ## Paths -/

section Paths

/-- The node at a path. -/
def at? : List Nat → Node → Option Node
  | [], n => some n
  | i :: path, n => n.childNodes[i]?.bind (at? path)

/-- The node with other operands and generic children, as many as it has now. -/
def withChildNodes (n : Node) (nodes : List Node) : Node :=
  let (kind, children) := n.kind.refill nodes
  { n with kind, children }

/-- The tree with the node at a path changed. Nothing changes if there is no such node. -/
def modifyAt (f : Node → Node) : List Nat → Node → Node
  | [], n => f n
  | i :: path, n => n.withChildNodes (n.childNodes.modify i (modifyAt f path))

end Paths

/-! ## Changes to a single node -/

section Changes

/-- The node with another parent, or none. -/
def setParent (parent : Option NodeId) (n : Node) : Node :=
  { n with parent }

/-- A rule that is active or not. Other nodes stay what they are. -/
def activate (isActive : Bool) (n : Node) : Node :=
  match n.kind with
  | .rule head body => { n with kind := .rule { head with isActive } body }
  | _ => n

/-- A rule that was activated `count` times, or a consequence that was executed unless `count` is
zero. Other nodes stay what they are. -/
def note (count : Nat) (n : Node) : Node :=
  match n.kind with
  | .rule head body => { n with kind := .rule { head with activations := count } body }
  | .consequence c => { n with kind := .consequence { c with executed := count != 0 } }
  | _ => n

/-- A rule, variable, call or consequence with another name. Other nodes stay what they are. -/
def rename (name : String) (n : Node) : Node :=
  match n.kind with
  | .rule head body => { n with kind := .rule { head with name } body }
  | .identifier _ => { n with kind := .identifier name }
  | .ruleCall _ => { n with kind := .ruleCall name }
  | .consequence c => { n with kind := .consequence { c with action := name } }
  | _ => n

/-- The node without the generic child at a position. -/
def removeChild (i : Nat) (n : Node) : Node :=
  { n with children := n.children.eraseIdx i }

end Changes

end Node

end Rulebook
