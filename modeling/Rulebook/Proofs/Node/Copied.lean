import Mathlib.Data.List.Nodup
import Mathlib.Data.List.Perm.Basic
import Rulebook.Proofs.Node.Rebuild
import Rulebook.Proofs.Node.Renamed

/-!
# Copied trees

A copy of a tree gets its identities one after the other, as its nodes are finished. If no two
nodes of the tree share an identity, the copy is the tree under other identities.

## Main definitions

* `Node.postorder`: the nodes of a tree, each behind the nodes below it
* `Node.relabel`: the tree with given identities
* `Node.copyId`: the identities in a copy

## Main results

* `Node.copy_eq_relabel`: a copy is the tree with these identities
* `Node.exists_renamed_copy`: a copy is the tree under other identities
-/

namespace Rulebook

namespace Node

/-! ## Postorder -/

section Postorder

/-- The nodes of a tree, each behind the nodes below it. -/
def postorder (n : Node) : List Node :=
  (n.childNodes.attach.flatMap fun c => postorder c.1) ++ [n]
termination_by sizeOf n
decreasing_by exact sizeOf_lt_of_mem_childNodes c.2

theorem postorder_eq (n : Node) : n.postorder = n.childNodes.flatMap postorder ++ [n] := by
  rw [postorder, List.flatMap_subtype fun _ _ => rfl, List.unattach_attach]

theorem postorder_perm (n : Node) : n.postorder.Perm n.nodes := by
  induction n using Node.induction with
  | step n ih =>
    rw [postorder_eq, nodes_eq]
    exact (List.perm_append_singleton n _).trans ((List.Perm.flatMap_left _ ih).cons n)

end Postorder

/-! ## Trees with given identities -/

section Relabel

variable (ρ : NodeId → NodeId)

/-- The tree with other identities, linked anew. -/
def relabel (n : Node) : Node :=
  n.remake fun n kind children => (linked (ρ n.id) kind children).withSpan n.span n.line

theorem relabel_eq (n : Node) :
    n.relabel ρ = (linked (ρ n.id) (n.kind.map (relabel ρ)) (n.children.map (relabel ρ))).withSpan
      n.span n.line :=
  remake_eq n

variable {ρ}

theorem Renamed.withParent {n m : Node} (h : Renamed ρ n m) (p : NodeId) :
    Renamed ρ n (m.withParent p) :=
  .intro h.id_eq h.kind h.weight?_eq h.children

theorem renamed_relabel (n : Node) : Renamed ρ n (n.relabel ρ) := by
  induction n using Node.induction with
  | step n ih =>
    -- The children of the new tree are linked to their new owner.
    have hkind : (n.relabel ρ).kind = n.kind.map (Node.withParent (ρ n.id) ∘ relabel ρ) := by
      rw [relabel_eq, ← Kind.map_map]
      rfl
    have hchildren : (n.relabel ρ).children =
        n.children.map (Node.withParent (ρ n.id) ∘ relabel ρ) := by
      rw [relabel_eq, ← List.map_map]
      rfl
    refine .intro (by rw [relabel_eq]; rfl) ?_ (by rw [hkind, Kind.weight?_map]) ?_
    · rw [hkind]
      exact Kind.matches_map_of_mem fun c hc =>
        (ih c (List.mem_append_left _ hc)).withParent _
    · rw [hchildren, List.forall₂_map_right_iff]
      exact List.forall₂_same.2 fun c hc => (ih c (List.mem_append_right _ hc)).withParent _

end Relabel

/-! ## Copies -/

section Copies

variable {ρ : NodeId → NodeId}

/-- Some nodes get identities with successive numbers, from `next` on. -/
def Numbered (ρ : NodeId → NodeId) (next : Nat) (ns : List Node) : Prop :=
  ns.map (fun n => ρ n.id) = (List.range' next ns.length).map NodeId.mk

theorem numbered_append {next : Nat} {ns ms : List Node} :
    Numbered ρ next (ns ++ ms) ↔ Numbered ρ next ns ∧ Numbered ρ (next + ns.length) ms := by
  have hrange : List.range' next (ns ++ ms).length =
      List.range' next ns.length ++ List.range' (next + ns.length) ms.length := by
    rw [List.length_append, ← List.range'_append_1]
  rw [Numbered, hrange, List.map_append, List.map_append]
  exact List.append_eq_append_iff_of_size_eq_left (by simp)

/-- How a copy makes a node. -/
def copyNode (n : Node) (kind : Kind Node) (children : List Node) (id : NodeId) : Node × NodeId :=
  ((linked id kind children).withSpan n.span n.line, ⟨id.number + 1⟩)

theorem finishesRow_copyNode {ns : List Node}
    (h : ∀ n ∈ ns, ∀ next, Numbered ρ next n.postorder →
      Finishes copyNode n ⟨next⟩ (n.relabel ρ) ⟨next + n.postorder.length⟩)
    {next : Nat} (hnext : Numbered ρ next (ns.flatMap postorder)) :
    FinishesRow copyNode ns ⟨next⟩ (ns.map (relabel ρ))
      ⟨next + (ns.flatMap postorder).length⟩ := by
  induction ns generalizing next with
  | nil => exact .nil _
  | cons n ns ih =>
    rw [List.flatMap_cons] at hnext ⊢
    obtain ⟨hn, hns⟩ := numbered_append.1 hnext
    rw [List.length_append, ← Nat.add_assoc]
    exact .cons (h n List.mem_cons_self next hn)
      (ih (fun m hm => h m (List.mem_cons_of_mem n hm)) hns)

/-- A copy numbers the nodes of a tree in postorder. -/
theorem finishes_copyNode (n : Node) {next : Nat} (hnext : Numbered ρ next n.postorder) :
    Finishes copyNode n ⟨next⟩ (n.relabel ρ) ⟨next + n.postorder.length⟩ := by
  induction n using Node.induction generalizing next with
  | step n ih =>
    rw [postorder_eq] at hnext ⊢
    -- The numbers for the nodes below are issued first, that of the node itself is the next one.
    obtain ⟨hbelow, hn⟩ := numbered_append.1 hnext
    have hrow := finishesRow_copyNode (fun c hc _ h => ih c hc h) hbelow
    have hid : ρ n.id = ⟨next + (n.childNodes.flatMap postorder).length⟩ := by
      simpa [Numbered] using hn
    have h := Finishes.of_map hrow
    rw [relabel_eq, hid, List.length_append, List.length_singleton, ← Nat.add_assoc]
    exact h

/-- The identities of the nodes of a tree, in postorder. -/
def postorderIds (n : Node) : List NodeId :=
  n.postorder.map Node.id

/-- The identity that a node gets in a copy. Identities that are not in the tree are moved out of
the way. -/
def copyId (root : Node) (next : Nat) (id : NodeId) : NodeId :=
  if id ∈ root.postorderIds then ⟨next + root.postorderIds.idxOf id⟩
  else ⟨next + root.postorderIds.length + id.number⟩

theorem copyId_injective (root : Node) (next : Nat) : Function.Injective (root.copyId next) := by
  intro a b h
  unfold copyId at h
  generalize root.postorderIds = ids at h
  -- The identities of the tree get the first numbers, all others come behind these.
  by_cases ha : a ∈ ids
  · have hlt := List.idxOf_lt_length_iff.2 ha
    rw [if_pos ha] at h
    by_cases hb : b ∈ ids
    · rw [if_pos hb, NodeId.mk.injEq] at h
      exact (List.idxOf_inj ha).1 (Nat.add_left_cancel h)
    · rw [if_neg hb, NodeId.mk.injEq] at h
      omega
  · rw [if_neg ha] at h
    by_cases hb : b ∈ ids
    · have hlt := List.idxOf_lt_length_iff.2 hb
      rw [if_pos hb, NodeId.mk.injEq] at h
      omega
    · rw [if_neg hb, NodeId.mk.injEq] at h
      exact congrArg NodeId.mk (Nat.add_left_cancel h)

theorem numbered_copyId {root : Node} (hids : (root.nodes.map Node.id).Nodup) (next : Nat) :
    Numbered (root.copyId next) next root.postorder := by
  have hnodup : root.postorderIds.Nodup := (root.postorder_perm.map Node.id).nodup_iff.2 hids
  refine List.ext_getElem (by simp) fun i hi _ => ?_
  rw [List.length_map] at hi
  have hmem : root.postorder[i].id ∈ root.postorderIds :=
    List.mem_map_of_mem (List.getElem_mem hi)
  have hindex : root.postorderIds.idxOf root.postorder[i].id = i := by
    have h := hnodup.idxOf_getElem i (by simpa [postorderIds] using hi)
    rwa [← List.getElem_map Node.id]
  rw [List.getElem_map, List.getElem_map, List.getElem_range', copyId, if_pos hmem, hindex,
    Nat.one_mul]

/-- A copy is the tree with the identities of the copy. -/
theorem copy_eq_relabel {root : Node} (hids : (root.nodes.map Node.id).Nodup) (next : NodeId) :
    (root.copy next).1 = root.relabel (root.copyId next.number) :=
  congrArg Prod.fst (finishes_copyNode root (numbered_copyId hids next.number)).rebuild

/-- A copy is the tree under other identities. -/
theorem exists_renamed_copy {root : Node} (hids : (root.nodes.map Node.id).Nodup)
    (next : NodeId) : ∃ ρ, Function.Injective ρ ∧ Renamed ρ root (root.copy next).1 :=
  ⟨root.copyId next.number, root.copyId_injective next.number,
    copy_eq_relabel hids next ▸ renamed_relabel root⟩

end Copies

end Node

end Rulebook
