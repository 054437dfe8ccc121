import Rulebook.Node.Rebuild
import Rulebook.Proofs.Node.Folding

/-!
# Rebuilt trees

A tree is rebuilt from its leaves with a stack of finished nodes. What becomes of a node depends on
what became of its children, and on the state that was reached with the last of them.

## Main definitions

* `Node.Finishes`: a walk that rebuilds a tree has finished a node
* `Node.FinishesRow`: it has finished a row of nodes
* `Node.remake`: a tree made anew without a state

## Main results

* `Node.Finishes.of_childNodes`: a node is finished when the nodes below it are
* `Node.Finishes.of_map`: the case of nodes that become the same in every state
* `Node.remake_eq`: a node that is made without a state is made from the new children
* `Node.mapKinds_eq`: the new node has the new variant, on the new children
* `Node.nodes_mapKinds`: the nodes of the new tree, in preorder, are the new nodes
-/

namespace Rulebook

namespace Node

/-! ## Walks -/

section Walks

variable {σ : Type} (make : Node → Kind Node → List Node → σ → Node × σ)

/-- A walk that comes to `n` in the state `s` has finished `m`, in the state `t`, before it goes on
with what is pending. -/
def Finishes (n : Node) (s : σ) (m : Node) (t : σ) : Prop :=
  ∀ built depth pending,
    walkPostList (fun n _ => rebuildStep make n) (built, s) (.enter n depth :: pending) =
      walkPostList (fun n _ => rebuildStep make n) (m :: built, t) pending

/-- The nodes of a row are finished one after the other. -/
inductive FinishesRow : List Node → σ → List Node → σ → Prop where
  | nil (s : σ) : FinishesRow [] s [] s
  | cons {n m : Node} {ns ms : List Node} {s t u : σ} (h : Finishes make n s m t)
      (hrest : FinishesRow ns t ms u) : FinishesRow (n :: ns) s (m :: ms) u

variable {make} {f : Node → Node}

theorem FinishesRow.of_forall {ns : List Node} {s : σ}
    (h : ∀ n ∈ ns, Finishes make n s (f n) s) : FinishesRow make ns s (ns.map f) s := by
  induction ns with
  | nil => exact .nil s
  | cons n ns ih =>
    exact .cons (h n List.mem_cons_self) (ih fun m hm => h m (List.mem_cons_of_mem n hm))

theorem FinishesRow.length_eq {ns ms : List Node} {s t : σ} (h : FinishesRow make ns s ms t) :
    ms.length = ns.length := by
  induction h with
  | nil => rfl
  | cons _ _ ih => rw [List.length_cons, List.length_cons, ih]

theorem FinishesRow.walk {ns ms : List Node} {s t : σ} (h : FinishesRow make ns s ms t)
    (built : List Node) (depth : Nat) (pending : List Pending) :
    walkPostList (fun n _ => rebuildStep make n) (built, s)
        (ns.map (.enter · depth) ++ pending) =
      walkPostList (fun n _ => rebuildStep make n) (ms.reverse ++ built, t) pending := by
  induction h generalizing built with
  | nil => rfl
  | cons h _ ih =>
    rw [List.map_cons, List.cons_append, h, ih, List.reverse_cons, List.append_assoc,
      List.singleton_append]

/-- The children that are finished last are those of the node. -/
theorem rebuildStep_append {n : Node} {ms : List Node} (hlength : ms.length = n.childNodes.length)
    (built : List Node) (s : σ) :
    rebuildStep make n (ms.reverse ++ built, s) =
      ((make n (n.kind.refill ms).1 (n.kind.refill ms).2 s).1 :: built,
        (make n (n.kind.refill ms).1 (n.kind.refill ms).2 s).2) := by
  have htake : (ms.reverse ++ built).take n.childNodes.length = ms.reverse := by
    rw [List.take_append_of_le_length (by simp [hlength]),
      List.take_of_length_le (by simp [hlength])]
  have hdrop : (ms.reverse ++ built).drop n.childNodes.length = built := by
    rw [List.drop_append_of_le_length (by simp [hlength]),
      List.drop_of_length_le (by simp [hlength]), List.nil_append]
  simp only [rebuildStep, htake, hdrop, List.reverse_reverse]

/-- A node is finished when the nodes below it are. It is refilled with what these became. -/
theorem Finishes.of_childNodes {n : Node} {ms : List Node} {s t : σ}
    (h : FinishesRow make n.childNodes s ms t) :
    Finishes make n s (make n (n.kind.refill ms).1 (n.kind.refill ms).2 t).1
      (make n (n.kind.refill ms).1 (n.kind.refill ms).2 t).2 := by
  intro built depth pending
  -- On entering, the node is put behind its children; on leaving, it takes them from the stack.
  rw [walkPostList, h.walk, walkPostList, rebuildStep_append h.length_eq]

theorem Finishes.of_map {n : Node} {s t : σ}
    (h : FinishesRow make n.childNodes s (n.childNodes.map f) t) :
    Finishes make n s (make n (n.kind.map f) (n.children.map f) t).1
      (make n (n.kind.map f) (n.children.map f) t).2 := by
  have hrefill : n.kind.refill (n.childNodes.map f) = (n.kind.map f, n.children.map f) := by
    rw [childNodes, List.map_append, Kind.refill_append]
  have hn := Finishes.of_childNodes h
  rwa [hrefill] at hn

/-- Alone in its tree, a node is what the tree is rebuilt to. -/
theorem Finishes.rebuild {n m : Node} {s t : σ} (h : Finishes make n s m t) :
    n.rebuild make s = (m, t) := by
  rw [Node.rebuild, walkPost, h, walkPostList]

end Walks

/-! ## Trees made anew -/

section Remake

/-- Makes each node of a tree anew, after its children, without a state. -/
def remake (make : Node → Kind Node → List Node → Node) (n : Node) : Node :=
  (n.rebuild (fun n kind children (_ : Unit) => (make n kind children, ())) ()).1

variable {make : Node → Kind Node → List Node → Node}

theorem finishes_remake (n : Node) :
    Finishes (fun n kind children (_ : Unit) => (make n kind children, ())) n ()
      (n.remake make) () := by
  induction n using Node.induction with
  | step n ih =>
    have h := Finishes.of_map (.of_forall ih)
    rwa [remake, h.rebuild]

/-- The new node is made from the new children. -/
theorem remake_eq (n : Node) :
    n.remake make = make n (n.kind.map (remake make)) (n.children.map (remake make)) := by
  have hchildren : ∀ c ∈ n.childNodes,
      Finishes (fun n kind children (_ : Unit) => (make n kind children, ())) c ()
        (c.remake make) () := fun c _ => finishes_remake c
  rw [remake, (Finishes.of_map (.of_forall hchildren)).rebuild]

end Remake

/-! ## Other variants -/

section Variants

variable {f : Node → Kind Node → Kind Node}

/-- The new node has the new variant, on the new children. -/
theorem mapKinds_eq (n : Node) :
    n.mapKinds f =
      { n with kind := f n (n.kind.map (mapKinds f)), children := n.children.map (mapKinds f) } :=
  remake_eq n

/-- The nodes of the new tree are the new nodes. -/
theorem nodes_mapKinds (hf : ∀ n k, (f n k).operands = k.operands) (n : Node) :
    (n.mapKinds f).nodes = n.nodes.map (mapKinds f) := by
  induction n using Node.induction with
  | step n ih =>
    have hchildren : (n.mapKinds f).childNodes = n.childNodes.map (mapKinds f) := by
      rw [mapKinds_eq, childNodes, childNodes, hf, Kind.operands_map, List.map_append]
    rw [nodes_eq, hchildren, nodes_eq n, List.map_cons, List.flatMap_map, List.map_flatMap]
    exact congrArg _ (List.flatMap_congr ih)

end Variants

end Node

end Rulebook
