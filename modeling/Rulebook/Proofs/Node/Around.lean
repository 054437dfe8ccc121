import Mathlib.Algebra.BigOperators.Group.List.Basic
import Mathlib.Algebra.Ring.Nat
import Mathlib.Data.List.Nodup
import Mathlib.Data.List.Pairwise
import Rulebook.Proofs.Node.Check

/-!
# Nodes around a node

A node that stands below others stands in subtrees that contain each other, so one of those nodes
around it that have some property is the innermost.

## Main definitions

* `Node.tally`: how many nodes of a tree have an identity
* `Node.IsInnermost`: the innermost node around another one that has a property

## Main results

* `Node.mem_nodes_or_mem_nodes`: of two nodes around a node, one contains the other
* `Node.exists_isInnermost`: if some node around another one has a property, one is the innermost
-/

namespace Rulebook

namespace Node

/-! ## Counting identities -/

section Tallies

variable {root n m : Node} {id : NodeId}

/-- How many nodes of a tree have an identity. -/
def tally (id : NodeId) (n : Node) : Nat :=
  (n.nodes.map Node.id).count id

theorem tally_eq (id : NodeId) (n : Node) :
    n.tally id = (if n.id = id then 1 else 0) + (n.childNodes.map (tally id)).sum := by
  rw [tally, nodes_eq, List.map_cons, List.count_cons, List.map_flatMap, List.count_flatMap,
    Nat.add_comm]
  simp only [beq_iff_eq]
  rfl

/-- The nodes below a node are listed within those of the tree. -/
theorem nodes_sublist (hn : n ∈ root.nodes) : n.nodes.Sublist root.nodes := by
  induction root using Node.induction with
  | step root ih =>
    rcases mem_nodes_iff.1 hn with rfl | ⟨c, hc, hn⟩
    · exact .refl _
    · rw [nodes_eq root]
      exact ((ih c hc hn).trans (List.sublist_flatten_of_mem (List.mem_map_of_mem hc))).cons root

variable (hids : (root.nodes.map Node.id).Nodup)
include hids

theorem tally_le_one (hn : n ∈ root.nodes) (id : NodeId) : n.tally id ≤ 1 :=
  List.nodup_iff_count_le_one.1 (hids.sublist ((nodes_sublist hn).map Node.id)) id

/-- Identities tell which nodes stand below a node. -/
theorem tally_pos_iff (hn : n ∈ root.nodes) (hm : m ∈ root.nodes) :
    0 < n.tally m.id ↔ m ∈ n.nodes := by
  rw [tally, List.count_pos_iff, List.mem_map]
  refine ⟨fun ⟨other, hother, hid⟩ => ?_, fun hmem => ⟨m, hmem, rfl⟩⟩
  exact List.inj_on_of_nodup_map hids ((nodes_sublist hn).subset hother) hm hid ▸ hother

end Tallies

/-! ## The innermost node -/

section Innermost

variable {root n : Node} (hids : (root.nodes.map Node.id).Nodup)

/-- The innermost node around another one that has a property: all others contain it. -/
structure IsInnermost (root : Node) (p : Node → Prop) (n around : Node) : Prop where
  mem : around ∈ root.nodes
  holds : p around
  contains : n ∈ around.nodes
  least : ∀ other ∈ root.nodes, p other → n ∈ other.nodes → around ∈ other.nodes

include hids

/-- Of two nodes around a node, one contains the other. -/
theorem mem_nodes_or_mem_nodes {x y : Node} (hx : x ∈ root.nodes) (hy : y ∈ root.nodes)
    (hnx : n ∈ x.nodes) (hny : n ∈ y.nodes) : y ∈ x.nodes ∨ x ∈ y.nodes := by
  induction root using Node.induction with
  | step root ih =>
    rcases mem_nodes_iff.1 hx with rfl | ⟨c, hc, hxc⟩
    · exact .inl hy
    rcases mem_nodes_iff.1 hy with rfl | ⟨d, hd, hyd⟩
    · exact .inr hx
    -- The two nodes are below one child, since the node is.
    have hbelow : (root.childNodes.flatMap fun c => c.nodes.map Node.id).Nodup := by
      rw [nodes_eq, List.map_cons, List.map_flatMap] at hids
      exact hids.of_cons
    obtain ⟨hchild, hdisjoint⟩ := List.nodup_flatMap.1 hbelow
    obtain rfl : c = d := by
      by_contra hne
      have : Std.Symm (Function.onFun List.Disjoint fun c : Node => c.nodes.map Node.id) :=
        ⟨fun _ _ h _ ha hb => h hb ha⟩
      exact hdisjoint.forall hc hd hne (List.mem_map_of_mem ((nodes_sublist hxc).subset hnx))
        (List.mem_map_of_mem ((nodes_sublist hyd).subset hny))
    exact ih c hc (hchild c hc) hxc hyd

/-- If some node around another one has a property, then one of them is the innermost. -/
theorem exists_isInnermost {p : Node → Prop} {around : Node} (haround : around ∈ root.nodes)
    (hp : p around) (hn : n ∈ around.nodes) : ∃ innermost, IsInnermost root p n innermost := by
  -- Induction on a node that has such nodes below it, from the outside to the inside.
  have hfrom {top : Node} (htop : top ∈ root.nodes)
      (hsome : ∃ x ∈ top.nodes, p x ∧ n ∈ x.nodes) :
      ∃ innermost, IsInnermost root p n innermost := by
    induction top using Node.induction with
    | step top ih =>
      by_cases hinner : ∃ c ∈ top.childNodes, ∃ x ∈ c.nodes, p x ∧ n ∈ x.nodes
      · obtain ⟨c, hc, hsome⟩ := hinner
        exact ih c hc (mem_nodes_of_mem_childNodes_of_mem htop hc) hsome
      · have hself {x : Node} (hx : x ∈ top.nodes) (hpx : p x) (hnx : n ∈ x.nodes) : x = top :=
          (mem_nodes_iff.1 hx).resolve_right fun ⟨c, hc, hxc⟩ => hinner ⟨c, hc, x, hxc, hpx, hnx⟩
        obtain ⟨x, hx, hpx, hnx⟩ := hsome
        obtain rfl := hself hx hpx hnx
        refine ⟨x, htop, hpx, hnx, fun other hother hpo hno => ?_⟩
        rcases mem_nodes_or_mem_nodes hids htop hother hnx hno with hin | hin
        · rw [hself hin hpo hno]
          exact x.mem_nodes_self
        · exact hin
  exact hfrom root.mem_nodes_self ⟨around, haround, hp, hn⟩

end Innermost

end Node

end Rulebook
