import Mathlib.Data.List.Flatten
import Mathlib.Data.List.Perm.Subperm
import Rulebook.Proofs.Node.Faithful

/-!
# Trees that grow side by side

Trees are made from trees: a new node takes some of them over as its children, and gets an identity
that none of them has. So among all trees that are there at some time no identity occurs twice, and
in each of them the nodes below the root name their owners.

## Main definitions

* `Node.idsOf`: the identities of the nodes of some trees
* `Node.Sound`: a tree whose nodes have identities of their own and name their owners
* `Node.Grove`: some sound trees that have no identity in common

## Main results

* `Node.Grove.plant`: a new node takes over some of the trees
* `Node.Grove.shrink`: trees may lose nodes
* `Node.Grove.append`: identities that are issued later are different from earlier ones
-/

namespace Rulebook

namespace Node

/-! ## Identities -/

section Identities

/-- The identities of the nodes of some trees, in preorder. -/
def idsOf (ns : List Node) : List NodeId :=
  (ns.flatMap nodes).map id

@[simp] theorem idsOf_nil : idsOf [] = [] := rfl

theorem idsOf_append (ms ns : List Node) : idsOf (ms ++ ns) = idsOf ms ++ idsOf ns := by
  rw [idsOf, List.flatMap_append, List.map_append, idsOf, idsOf]

theorem idsOf_cons (n : Node) (ns : List Node) :
    idsOf (n :: ns) = n.id :: (idsOf n.childNodes ++ idsOf ns) := by
  rw [idsOf, List.flatMap_cons, nodes_eq, List.map_append, List.map_cons, idsOf, idsOf,
    List.cons_append]

theorem idsOf_singleton (n : Node) : idsOf [n] = n.nodes.map id := by
  rw [idsOf, List.flatMap_singleton]

/-- New links do not change identities. -/
theorem idsOf_map_withParent (ns : List Node) (p : NodeId) :
    idsOf (ns.map (withParent p)) = idsOf ns := by
  induction ns with
  | nil => rfl
  | cons n ns ih =>
    rw [List.map_cons, idsOf_cons, idsOf_cons, ih]
    rfl

theorem idsOf_perm {ms ns : List Node} (h : ms.Perm ns) : (idsOf ms).Perm (idsOf ns) :=
  (h.flatMap_right nodes).map id

theorem idsOf_subperm {ms ns : List Node} (h : ms.Subperm ns) : (idsOf ms).Subperm (idsOf ns) := by
  obtain ⟨l, hperm, hsub⟩ := h
  exact ⟨idsOf l, idsOf_perm hperm, (hsub.flatMap nodes).map id⟩

theorem nodup_of_subperm {is js : List NodeId} (h : is.Subperm js) (hjs : js.Nodup) : is.Nodup := by
  obtain ⟨l, hperm, hsub⟩ := h
  exact hperm.nodup_iff.1 (hjs.sublist hsub)

end Identities

/-! ## Groves -/

section Groves

/-- The nodes of a tree have identities of their own, and those below the root name their
owners. -/
structure Sound (n : Node) : Prop where
  distinct : (n.nodes.map id).Nodup
  linked : n.WellLinked

/-- Some trees have identities that were issued from `first` on and before `next`, none of them
occurs twice, and the nodes below the roots name their owners. -/
structure Grove (first next : Nat) (ns : List Node) : Prop where
  distinct : (idsOf ns).Nodup
  issued : ∀ i ∈ idsOf ns, first ≤ i.number ∧ i.number < next
  linked : ∀ n ∈ ns, n.WellLinked

variable {first next : Nat} {ms ns : List Node} {n : Node}

theorem Grove.nil (first next : Nat) : Grove first next [] :=
  ⟨.nil, List.forall_mem_nil _, List.forall_mem_nil _⟩

theorem Grove.sound (h : Grove first next ns) (hn : n ∈ ns) : n.Sound where
  distinct := by
    rw [← idsOf_singleton]
    exact nodup_of_subperm (idsOf_subperm (List.singleton_subperm_iff.2 hn)) h.distinct
  linked := h.linked n hn

theorem Grove.mono {first' next' : Nat} (h : Grove first next ns) (hfirst : first' ≤ first)
    (hnext : next ≤ next') : Grove first' next' ns :=
  ⟨h.distinct, fun i hi => ⟨hfirst.trans (h.issued i hi).1, (h.issued i hi).2.trans_le hnext⟩,
    h.linked⟩

/-- Trees may lose nodes, as long as links stay right. -/
theorem Grove.shrink (h : Grove first next ns) (hids : (idsOf ms).Subperm (idsOf ns))
    (hlinked : ∀ m ∈ ms, m.WellLinked) : Grove first next ms :=
  ⟨nodup_of_subperm hids h.distinct, fun i hi => h.issued i (hids.subset hi), hlinked⟩

/-- Trees may be dropped, and taken in another order. -/
theorem Grove.subperm (h : Grove first next ns) (hms : ms.Subperm ns) : Grove first next ms :=
  h.shrink (idsOf_subperm hms) fun m hm => h.linked m (hms.subset hm)

/-- Identities that are issued later are different from earlier ones. -/
theorem Grove.append {middle : Nat} (hms : Grove first middle ms) (hns : Grove middle next ns)
    (hfirst : first ≤ middle) (hnext : middle ≤ next) : Grove first next (ms ++ ns) where
  distinct := by
    rw [idsOf_append]
    refine hms.distinct.append hns.distinct fun i hi hi' => ?_
    exact absurd (hms.issued i hi).2 (Nat.not_lt.2 (hns.issued i hi').1)
  issued i hi := by
    rw [idsOf_append] at hi
    rcases List.mem_append.1 hi with hi | hi
    · exact ((hms.mono (Nat.le_refl _) hnext).issued i hi)
    · exact ((hns.mono hfirst (Nat.le_refl _)).issued i hi)
  linked := List.forall_mem_append.2 ⟨hms.linked, hns.linked⟩

/-- A new node takes over some trees. -/
theorem Grove.plant {kind : Kind Node} {children : List Node}
    (h : Grove first next (kind.operands ++ children ++ ns)) (hle : first ≤ next) :
    Grove first (next + 1) (.linked ⟨next⟩ kind children :: ns) := by
  have hids : idsOf (.linked ⟨next⟩ kind children :: ns) =
      ⟨next⟩ :: idsOf (kind.operands ++ children ++ ns) := by
    rw [idsOf_cons, childNodes_linked, idsOf_map_withParent, ← idsOf_append]
    rfl
  have hlinked := List.forall_mem_append.1 h.linked
  refine ⟨?_, ?_, List.forall_mem_cons.2 ⟨.linked hlinked.1, hlinked.2⟩⟩
  · rw [hids]
    exact List.nodup_cons.2 ⟨fun hi => Nat.lt_irrefl _ (h.issued _ hi).2, h.distinct⟩
  · rw [hids, List.forall_mem_cons]
    exact ⟨⟨hle, Nat.lt_succ_self _⟩, (h.mono (Nat.le_refl _) (Nat.le_succ _)).issued⟩

theorem Grove.withSpan (h : Grove first next (n :: ns)) (span : Span) (line : Nat) :
    Grove first next (n.withSpan span line :: ns) := by
  obtain ⟨hn, hns⟩ := List.forall_mem_cons.1 h.linked
  refine h.shrink ?_ (List.forall_mem_cons.2 ⟨wellLinked_withSpan.2 hn, hns⟩)
  rw [idsOf_cons, idsOf_cons]
  exact .refl _

end Groves

end Node

end Rulebook
