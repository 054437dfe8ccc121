import Rulebook.Proofs.Node.Folding

/-!
# New nodes

A node that is made from others takes them over as children. What is said here about depths and
rules does not depend on identities, places and parents.

## Main results

* `Node.depth_linked`: a new node is one level deeper than its deepest child
* `Node.RuleFree.linked`, `Node.RuleFreeOperands.linked`: trees without rules in the wrong places
-/

namespace Rulebook

namespace Node

section Links

@[simp] theorem childNodes_withSpan (n : Node) (span : Span) (line : Nat) :
    (n.withSpan span line).childNodes = n.childNodes := rfl

theorem childNodes_linked (id : NodeId) (kind : Kind Node) (children : List Node) :
    (linked id kind children).childNodes =
      (kind.operands ++ children).map (withParent id) := by
  rw [childNodes, linked, Kind.operands_map, List.map_append]

end Links

/-! ## Depth -/

section Depth

theorem depth_congr {n m : Node} (h : n.childNodes = m.childNodes) : n.depth = m.depth := by
  rw [depth_eq, depth_eq m, h]

@[simp] theorem depth_withParent (p : NodeId) (n : Node) : (n.withParent p).depth = n.depth :=
  depth_congr rfl

@[simp] theorem depth_withSpan (n : Node) (span : Span) (line : Nat) :
    (n.withSpan span line).depth = n.depth :=
  depth_congr rfl

theorem tallest_map {f : Node → Node} (hf : ∀ n, (f n).depth = n.depth) (ns : List Node) :
    tallest (ns.map f) = tallest ns := by
  induction ns with
  | nil => rfl
  | cons n ns ih => rw [List.map_cons, tallest_cons, tallest_cons, hf, ih]

theorem depth_linked (id : NodeId) (kind : Kind Node) (children : List Node) :
    (linked id kind children).depth = 1 + tallest (kind.operands ++ children) := by
  rw [depth_eq, childNodes_linked, tallest_map (depth_withParent id)]

theorem depth_pos (n : Node) : 0 < n.depth := by
  rw [depth_eq]
  omega

end Depth

/-! ## Rules -/

section Rules

theorem ruleFree_iff {n : Node} :
    n.RuleFree ↔ n.kind.rule? = none ∧ ∀ c ∈ n.childNodes, c.RuleFree := by
  simp only [RuleFree]
  rw [nodes_eq]
  simp only [List.forall_mem_cons, List.mem_flatMap]
  exact and_congr_right fun _ => ⟨fun h c hc r hr => h r ⟨c, hc, hr⟩,
    fun h r ⟨c, hc, hr⟩ => h c hc r hr⟩

theorem ruleFreeOperands_iff {n : Node} :
    n.RuleFreeOperands ↔ (n.kind.isOperation → ∀ operand ∈ n.kind.operands, operand.RuleFree) ∧
      ∀ c ∈ n.childNodes, c.RuleFreeOperands := by
  simp only [RuleFreeOperands]
  rw [nodes_eq]
  simp only [List.forall_mem_cons, List.mem_flatMap]
  exact and_congr_right fun _ => ⟨fun h c hc m hm => h m ⟨c, hc, hm⟩,
    fun h m ⟨c, hc, hm⟩ => h c hc m hm⟩

/-- Trees without rules have none in the wrong places. -/
theorem RuleFree.operands {n : Node} (h : n.RuleFree) : n.RuleFreeOperands := by
  induction n using Node.induction with
  | step n ih =>
    have hchildren := (ruleFree_iff.1 h).2
    exact ruleFreeOperands_iff.2
      ⟨fun _ operand ho => hchildren operand (List.mem_append_left _ ho),
        fun c hc => ih c hc (hchildren c hc)⟩

@[simp] theorem ruleFree_withParent {p : NodeId} {n : Node} :
    (n.withParent p).RuleFree ↔ n.RuleFree := by
  rw [ruleFree_iff, ruleFree_iff]
  rfl

@[simp] theorem ruleFree_withSpan {n : Node} {span : Span} {line : Nat} :
    (n.withSpan span line).RuleFree ↔ n.RuleFree := by
  rw [ruleFree_iff, ruleFree_iff]
  rfl

@[simp] theorem ruleFreeOperands_withParent {p : NodeId} {n : Node} :
    (n.withParent p).RuleFreeOperands ↔ n.RuleFreeOperands := by
  rw [ruleFreeOperands_iff, ruleFreeOperands_iff]
  rfl

@[simp] theorem ruleFreeOperands_withSpan {n : Node} {span : Span} {line : Nat} :
    (n.withSpan span line).RuleFreeOperands ↔ n.RuleFreeOperands := by
  rw [ruleFreeOperands_iff, ruleFreeOperands_iff]
  rfl

theorem RuleFree.linked {id : NodeId} {kind : Kind Node} {children : List Node}
    (hkind : kind.rule? = none) (h : ∀ c ∈ kind.operands ++ children, c.RuleFree) :
    (linked id kind children).RuleFree := by
  rw [ruleFree_iff, childNodes_linked, List.forall_mem_map]
  refine ⟨?_, fun c hc => ruleFree_withParent.2 (h c hc)⟩
  rw [Node.linked, Kind.rule?_map, hkind]

theorem RuleFreeOperands.linked {id : NodeId} {kind : Kind Node} {children : List Node}
    (hkind : kind.isOperation = false)
    (h : ∀ c ∈ kind.operands ++ children, c.RuleFreeOperands) :
    (linked id kind children).RuleFreeOperands := by
  rw [ruleFreeOperands_iff, childNodes_linked, List.forall_mem_map]
  refine ⟨fun hop => ?_, fun c hc => ruleFreeOperands_withParent.2 (h c hc)⟩
  rw [Node.linked, Kind.isOperation_map, hkind] at hop
  cases hop

end Rules

end Node

end Rulebook
