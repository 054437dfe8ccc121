import Rulebook.Node.Check
import Rulebook.Proofs.Node.Linked

/-!
# Checked trees

A tree passes the check if it is not too deep and none of its nodes has a defect.

## Main definitions

* `Node.Flawless`: no node of a tree has a defect

## Main results

* `Node.check_eq_ok`: which trees pass the check
* `Node.defect?_linked`: a new node has the right links to its children
-/

namespace Rulebook

namespace Node

/-! ## The nodes of a tree -/

section Nodes

theorem mem_nodes_iff {n m : Node} : m ∈ n.nodes ↔ m = n ∨ ∃ c ∈ n.childNodes, m ∈ c.nodes := by
  rw [nodes_eq, List.mem_cons, List.mem_flatMap]

/-- The children of the nodes of a tree are nodes of the tree. -/
theorem mem_nodes_of_mem_childNodes_of_mem {root n c : Node} (hn : n ∈ root.nodes)
    (hc : c ∈ n.childNodes) : c ∈ root.nodes := by
  induction root using Node.induction with
  | step root ih =>
    rcases mem_nodes_iff.1 hn with rfl | ⟨d, hd, hn⟩
    · exact mem_nodes_of_mem_childNodes hc (mem_nodes_self c)
    · exact mem_nodes_of_mem_childNodes hd (ih d hd hn)

/-- What holds of all nodes of a tree holds of its root and of the nodes below. -/
theorem forall_mem_nodes_iff {P : Node → Prop} {n : Node} :
    (∀ m ∈ n.nodes, P m) ↔ P n ∧ ∀ c ∈ n.childNodes, ∀ m ∈ c.nodes, P m := by
  rw [nodes_eq]
  simp only [List.forall_mem_cons, List.mem_flatMap]
  exact and_congr_right fun _ => ⟨fun h c hc m hm => h m ⟨c, hc, hm⟩,
    fun h m ⟨c, hc, hm⟩ => h c hc m hm⟩

theorem tallest_le_iff {ns : List Node} {k : Nat} :
    tallest ns ≤ k ↔ ∀ n ∈ ns, n.depth ≤ k := by
  induction ns with
  | nil => simp
  | cons n ns ih => rw [tallest_cons, Nat.max_le, ih, List.forall_mem_cons]

theorem depth_lt_of_mem_childNodes {n c : Node} (h : c ∈ n.childNodes) : c.depth < n.depth := by
  have hle := tallest_le_iff.1 (Nat.le_refl (tallest n.childNodes)) c h
  rw [depth_eq n]
  omega

theorem depth_le_of_mem_nodes {root n : Node} (h : n ∈ root.nodes) : n.depth ≤ root.depth := by
  induction root using Node.induction with
  | step root ih =>
    rcases mem_nodes_iff.1 h with rfl | ⟨c, hc, hn⟩
    · exact Nat.le_refl _
    · exact Nat.le_of_lt (Nat.lt_of_le_of_lt (ih c hc hn) (depth_lt_of_mem_childNodes hc))

end Nodes

/-! ## Trees that pass -/

section Check

/-- No node of a tree has a defect. -/
def Flawless (n : Node) : Prop :=
  ∀ m ∈ n.nodes, m.defect? = none

theorem flawless_iff {n : Node} :
    n.Flawless ↔ n.defect? = none ∧ ∀ c ∈ n.childNodes, c.Flawless :=
  forall_mem_nodes_iff

theorem forM_eq_ok {ε : Type} {f : Node → Except ε Unit} {ns : List Node} :
    ns.forM f = .ok () ↔ ∀ n ∈ ns, f n = .ok () := by
  induction ns with
  | nil => exact ⟨fun _ => nofun, fun _ => rfl⟩
  | cons n ns ih =>
    rw [List.forall_mem_cons, ← ih]
    show (f n >>= fun _ => ns.forM f) = _ ↔ _
    cases f n with
    | ok u => exact ⟨fun h => ⟨rfl, h⟩, fun h => h.2⟩
    | error e => exact ⟨nofun, fun h => nomatch h.1⟩

theorem checkLevels_eq_ok {levels : Nat} {n : Node} :
    n.checkLevels levels = .ok () ↔ n.depth ≤ levels ∧ n.Flawless := by
  induction levels generalizing n with
  | zero =>
    have := n.depth_pos
    exact ⟨nofun, fun h => by omega⟩
  | succ levels ih =>
    have hdepth : n.depth ≤ levels + 1 ↔ ∀ c ∈ n.childNodes, c.depth ≤ levels := by
      rw [depth_eq, ← tallest_le_iff]
      omega
    rw [checkLevels, flawless_iff, hdepth]
    cases n.defect? with
    | some d => exact ⟨nofun, fun h => nomatch h.2.1⟩
    | none =>
      rw [forM_eq_ok]
      simp only [ih, true_and]
      exact forall₂_and

/-- A tree passes the check if it is not too deep and none of its nodes has a defect. -/
theorem check_eq_ok {n : Node} : n.check = .ok () ↔ n.depth ≤ maxTreeDepth ∧ n.Flawless :=
  checkLevels_eq_ok

theorem Flawless.partDefect? {n m : Node} (h : n.Flawless) (hm : m ∈ n.nodes) :
    m.partDefect? = none :=
  (Option.or_eq_none_iff.1 (h m hm)).1

/-- Consequences have actions and finite weights. -/
theorem Flawless.consequence {n m : Node} (h : n.Flawless) (hm : m ∈ n.nodes) {c : Consequence}
    (hc : m.kind = .consequence c) : c.action ≠ "" ∧ c.weight.isFinite = true := by
  have hpart := h.partDefect? hm
  rw [Node.partDefect?, hc] at hpart
  simp only at hpart
  split at hpart
  · cases hpart
  · next haction =>
    split at hpart
    · cases hpart
    · next hweight => exact ⟨fun h => haction (String.isEmpty_iff.2 h), by simpa using hweight⟩

end Check

/-! ## New nodes -/

section New

/-- A new node is the parent of its children. -/
theorem defect?_linked (id : NodeId) (kind : Kind Node) (children : List Node) :
    (linked id kind children).defect? = (linked id kind children).partDefect? := by
  have hoperands : (linked id kind children).operandDefect? = none := by
    simp [operandDefect?, linked, Kind.operands_map, withParent]
  have hchildren : (linked id kind children).childDefect? = none := by
    simp [childDefect?, linked, withParent]
  rw [defect?, hoperands, hchildren, Option.or_none, Option.or_none]

end New

end Node

end Rulebook
