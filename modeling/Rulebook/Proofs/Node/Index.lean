import Mathlib.Data.List.Chain
import Mathlib.Data.List.Induction
import Mathlib.Data.List.Nodup
import Mathlib.Data.List.Perm.Basic
import Rulebook.Node.Index
import Rulebook.Proofs.Node.Check

/-!
# Owners and paths

Each node of a tree other than the root is a child of one node, its owner. If identities are
distinct, an index of the tree finds nodes and owners by them, and a climb from owner to owner ends
at the root.

## Main definitions

* `Node.IsPath`: the nodes from a root down to a node below it
* `NodeIndex.Climbs`: climbs that come to an end, and what they find

## Main results

* `Node.nodes_perm`: the nodes of a tree are its root and the children of its nodes
* `NodeIndex.get?_ofNode_eq_some_iff`, `NodeIndex.owner?_ofNode_eq_some_iff`: what an index finds
* `NodeIndex.climb_eq_some_iff`: what a climb finds, if it ends
* `NodeIndex.ends_iff_acc`: when a climb ends
* `NodeIndex.isPath_of_path?`: the path that an index finds leads from the root to the node
-/

namespace Rulebook

namespace Node

/-! ## Owners -/

/-- The nodes of a tree are its root and the children of its nodes. -/
theorem nodes_perm (root : Node) :
    root.nodes.Perm (root :: root.nodes.flatMap childNodes) := by
  induction root using Node.induction with
  | step root ih =>
    have hbelow : (root.childNodes.flatMap nodes).Perm
        (root.childNodes.flatMap fun c => c :: c.nodes.flatMap childNodes) :=
      List.Perm.flatMap_left _ fun c hc => ih c hc
    have hsplit : (root.childNodes.flatMap fun c => c :: c.nodes.flatMap childNodes).Perm
        (root.childNodes ++ root.childNodes.flatMap fun c => c.nodes.flatMap childNodes) := by
      have happend := List.flatMap_append_perm root.childNodes (fun c => [c])
        fun c => c.nodes.flatMap childNodes
      rw [List.flatMap_singleton'] at happend
      exact happend.symm
    rw [nodes_eq, List.flatMap_cons, List.flatMap_assoc]
    exact (hbelow.trans hsplit).cons root

/-- A node of a tree is the root or has an owner. -/
theorem eq_or_exists_owner {root n : Node} (hn : n ∈ root.nodes) :
    n = root ∨ ∃ owner ∈ root.nodes, n ∈ owner.childNodes := by
  rw [(nodes_perm root).mem_iff, List.mem_cons, List.mem_flatMap] at hn
  exact hn

/-- The nodes from a root down to a node below it: each is followed by one of its children. -/
structure IsPath (root target : Node) (path : List Node) : Prop where
  head : path.head? = some root
  last : path.getLast? = some target
  owned : path.IsChain fun owner child => child ∈ owner.childNodes

/-- A path stays in the tree. -/
theorem IsPath.subset {root target : Node} {path : List Node} (h : IsPath root target path) :
    ∀ n ∈ path, n ∈ root.nodes := by
  have hbelow {top : Node} {rest : List Node} (htop : top ∈ root.nodes)
      (howned : (top :: rest).IsChain fun owner child => child ∈ owner.childNodes) :
      ∀ n ∈ top :: rest, n ∈ root.nodes := by
    induction rest generalizing top with
    | nil => simpa using htop
    | cons c rest ih =>
      rw [List.isChain_cons_cons] at howned
      exact List.forall_mem_cons.2
        ⟨htop, ih (mem_nodes_of_mem_childNodes_of_mem htop howned.1) howned.2⟩
  obtain ⟨hhead, -, howned⟩ := h
  obtain ⟨rest, rfl⟩ := List.head?_eq_some_iff.1 hhead
  exact hbelow root.mem_nodes_self howned

/-- All that comes behind a node on a path is below it. -/
theorem IsPath.mem_nodes {root target : Node} {path front back : List Node} {n : Node}
    (h : IsPath root target path) (hsplit : path = front ++ n :: back) : target ∈ n.nodes := by
  obtain ⟨-, hlast, howned⟩ := h
  subst hsplit
  rw [List.getLast?_append_cons] at hlast
  have hback := howned.right_of_append
  clear howned
  induction back generalizing n with
  | nil =>
    obtain rfl : n = target := by simpa using hlast
    exact n.mem_nodes_self
  | cons c back ih =>
    rw [List.isChain_cons_cons] at hback
    exact mem_nodes_of_mem_childNodes hback.1 (ih (by simpa using hlast) hback.2)

end Node

namespace NodeIndex

/-! ## Tables -/

/-- What is found in a table whose keys were entered once each. -/
theorem getElem?_foldl_insert_eq_some_iff {α : Type} {entries : List (Nat × α)}
    (hkeys : (entries.map Prod.fst).Nodup) (k : Nat) (a : α) :
    (entries.foldl (fun table p => table.insert p.1 p.2) (∅ : Std.TreeMap Nat α))[k]? = some a ↔
      (k, a) ∈ entries := by
  -- Induction on the entries, the last one first, which hides no other one.
  induction entries using List.reverseRecOn with
  | nil => simp
  | append_singleton entries p ih =>
    obtain ⟨key, value⟩ := p
    rw [List.map_append, List.nodup_append] at hkeys
    obtain ⟨hkeys, -, hnew⟩ := hkeys
    simp only [List.foldl_append, List.foldl_cons, List.foldl_nil, Std.TreeMap.getElem?_insert,
      Nat.compare_eq_eq, List.mem_append, List.mem_singleton, Prod.mk.injEq]
    by_cases hk : key = k
    · subst hk
      have hnone : (key, a) ∉ entries := fun hmem =>
        hnew key (List.mem_map_of_mem (f := Prod.fst) hmem) key (by simp) rfl
      simp [hnone, eq_comm]
    · rw [if_neg hk, ih hkeys]
      simp [Ne.symm hk]

/-- The owner of each child of a node. -/
def links (n : Node) : List (Nat × NodeId) :=
  n.childNodes.map fun c => (c.id.number, n.id)

/-- All nodes below the pending ones are entered, in some order. -/
theorem exists_enterAll_eq (index : NodeIndex) (pending : List Node) :
    ∃ ns : List Node, ns.Perm (pending.flatMap Node.nodes) ∧
      index.enterAll pending = ns.foldl NodeIndex.enter index := by
  fun_induction enterAll index pending with
  | case1 index => exact ⟨[], .nil, rfl⟩
  | case2 index n pending ih =>
    obtain ⟨ns, hns, hfold⟩ := ih
    refine ⟨n :: ns, ?_, hfold⟩
    rw [List.flatMap_append] at hns
    rw [List.flatMap_cons, Node.nodes_eq, List.cons_append]
    exact (hns.trans ((List.Perm.flatMap_right _ (List.reverse_perm _)).append_right _)).cons n

theorem nodes_foldl_enter (ns : List Node) (index : NodeIndex) :
    (ns.foldl NodeIndex.enter index).nodes =
      (ns.map fun n => (n.id.number, n)).foldl (fun table p => table.insert p.1 p.2)
        index.nodes := by
  induction ns generalizing index with
  | nil => rfl
  | cons n ns ih => exact ih _

theorem owners_foldl_enter (ns : List Node) (index : NodeIndex) :
    (ns.foldl NodeIndex.enter index).owners =
      (ns.flatMap links).foldl (fun table p => table.insert p.1 p.2) index.owners := by
  induction ns generalizing index with
  | nil => rfl
  | cons n ns ih =>
    rw [List.foldl_cons, ih, List.flatMap_cons, List.foldl_append, NodeIndex.enter, links,
      List.foldl_map]

/-- An index holds the nodes of its tree and their owners, as they were entered. -/
theorem exists_ofNode_eq (root : Node) : ∃ ns : List Node, ns.Perm root.nodes ∧
    (ofNode root).nodes =
      (ns.map fun n => (n.id.number, n)).foldl (fun table p => table.insert p.1 p.2) ∅ ∧
    (ofNode root).owners =
      (ns.flatMap links).foldl (fun table p => table.insert p.1 p.2) ∅ := by
  obtain ⟨ns, hns, hfold⟩ := exists_enterAll_eq {} [root]
  rw [List.flatMap_singleton] at hns
  refine ⟨ns, hns, ?_, ?_⟩
  · rw [ofNode, hfold, nodes_foldl_enter]
  · rw [ofNode, hfold, owners_foldl_enter]

/-! ## Climbs -/

/-- A climb from a node that comes to an end, and the path that it finds, if any. -/
inductive Climbs (index : NodeIndex) : NodeId → List Node → Option (List Node) → Prop where
  | missing {id : NodeId} {below : List Node} (h : index.get? id = none) :
    Climbs index id below none
  | top {id : NodeId} {below : List Node} {n : Node} (hn : index.get? id = some n)
    (howner : index.owner? id = none) : Climbs index id below (some (n :: below))
  | step {id owner : NodeId} {below : List Node} {n : Node} {path : Option (List Node)}
    (hn : index.get? id = some n) (howner : index.owner? id = some owner)
    (h : Climbs index owner (n :: below) path) : Climbs index id below path

theorem climb_eq_some_iff {index : NodeIndex} {id : NodeId} {below : List Node}
    {path : Option (List Node)} :
    index.climb id below = some path ↔ Climbs index id below path := by
  constructor
  · -- A climb that ends has made finitely many steps, so what each step preserves holds at its end.
    refine climb.partial_correctness index (Climbs index) (fun climb ih id below path h => ?_)
      id below path
    cases hn : index.get? id with
    | none =>
      rw [hn] at h
      obtain rfl := Option.some.inj h
      exact .missing hn
    | some n =>
      rw [hn] at h
      dsimp only at h
      cases howner : index.owner? id with
      | none =>
        rw [howner] at h
        obtain rfl := Option.some.inj h
        exact .top hn howner
      | some owner =>
        rw [howner] at h
        exact .step hn howner (ih _ _ _ h)
  · intro h
    induction h with
    | missing hn => rw [climb, hn]
    | top hn howner => rw [climb, hn]; simp only [howner]
    | step hn howner _ ih => rw [climb, hn]; simp only [howner, ih]

theorem path?_eq_some_iff {index : NodeIndex} {id : NodeId} {path : List Node} :
    index.path? id = some path ↔ Climbs index id [] (some path) := by
  rw [path?, Option.join_eq_some_iff, climb_eq_some_iff]

/-- A climb goes from a node to its owner. -/
def Above (index : NodeIndex) (owner id : NodeId) : Prop :=
  (index.get? id).isSome ∧ index.owner? id = some owner

theorem Climbs.acc {index : NodeIndex} {id : NodeId} {below : List Node}
    {path : Option (List Node)} (h : Climbs index id below path) : Acc index.Above id := by
  induction h with
  | missing hn => exact .intro _ fun owner h => by simp [Above, hn] at h
  | top _ howner => exact .intro _ fun owner h => by simp [Above, howner] at h
  | step _ howner _ ih =>
    refine .intro _ fun owner h => ?_
    obtain rfl := Option.some.inj (howner.symm.trans h.2)
    exact ih

theorem exists_climbs {index : NodeIndex} {id : NodeId} (h : Acc index.Above id)
    (below : List Node) : ∃ path, Climbs index id below path := by
  induction h generalizing below with
  | intro id _ ih =>
    cases hn : index.get? id with
    | none => exact ⟨none, .missing hn⟩
    | some n =>
      cases howner : index.owner? id with
      | none => exact ⟨some (n :: below), .top hn howner⟩
      | some owner =>
        obtain ⟨path, hpath⟩ := ih owner ⟨by rw [hn]; rfl, howner⟩ (n :: below)
        exact ⟨path, .step hn howner hpath⟩

/-- A climb ends if it cannot go on for ever. -/
theorem ends_iff_acc {index : NodeIndex} {id : NodeId} : index.Ends id ↔ Acc index.Above id := by
  rw [Ends, Option.isSome_iff_exists]
  constructor
  · rintro ⟨path, hpath⟩
    exact (climb_eq_some_iff.1 hpath).acc
  · intro h
    obtain ⟨path, hpath⟩ := exists_climbs h []
    exact ⟨path, climb_eq_some_iff.2 hpath⟩

/-- No climb from a node ends that is its own owner. -/
theorem not_ends_of_owner?_eq_self {index : NodeIndex} {id : NodeId}
    (hn : (index.get? id).isSome) (howner : index.owner? id = some id) : ¬ index.Ends id := by
  rw [ends_iff_acc]
  intro h
  induction h with
  | intro id _ ih => exact ih id ⟨hn, howner⟩ hn howner

/-! ## The index of a tree -/

section Trees

variable {root : Node} (hids : (root.nodes.map Node.id).Nodup)
include hids

theorem get?_ofNode_eq_some_iff {id : NodeId} {n : Node} :
    (ofNode root).get? id = some n ↔ n ∈ root.nodes ∧ n.id = id := by
  obtain ⟨ns, hns, hnodes, -⟩ := exists_ofNode_eq root
  have hkeys : ((ns.map fun n => (n.id.number, n)).map Prod.fst).Nodup := by
    have hnumbers := ((hns.map Node.id).nodup_iff.2 hids).map fun i j hij => NodeId.number_inj.1 hij
    simpa [Function.comp_def] using hnumbers
  rw [get?, hnodes, getElem?_foldl_insert_eq_some_iff hkeys]
  simp only [List.mem_map, Prod.mk.injEq, NodeId.number_inj, hns.mem_iff]
  constructor
  · rintro ⟨m, hm, hid, rfl⟩
    exact ⟨hm, hid⟩
  · rintro ⟨hn, hid⟩
    exact ⟨n, hn, hid, rfl⟩

theorem owner?_ofNode_eq_some_iff {id owner : NodeId} :
    (ofNode root).owner? id = some owner ↔
      ∃ n ∈ root.nodes, n.id = owner ∧ ∃ c ∈ n.childNodes, c.id = id := by
  obtain ⟨ns, hns, -, howners⟩ := exists_ofNode_eq root
  have hkeys : ((ns.flatMap links).map Prod.fst).Nodup := by
    -- Each node but the root is a child of one node, so no link is entered twice.
    have hperm := (Node.nodes_perm root).map Node.id
    have hchildren := (hperm.nodup_iff.1 hids).of_cons.map fun i j hij => NodeId.number_inj.1 hij
    refine ((hns.flatMap_right links).map Prod.fst).nodup_iff.2 ?_
    simpa [links, List.map_flatMap, Function.comp_def] using hchildren
  rw [owner?, howners, getElem?_foldl_insert_eq_some_iff hkeys, List.mem_flatMap]
  simp only [hns.mem_iff]
  refine exists_congr fun n => and_congr_right fun _ => ?_
  simp only [links, List.mem_map, Prod.mk.injEq, NodeId.number_inj]
  constructor
  · rintro ⟨c, hc, hid, howner⟩
    exact ⟨howner, c, hc, hid⟩
  · rintro ⟨howner, c, hc, hid⟩
    exact ⟨c, hc, hid, howner⟩

/-- A node has one owner. -/
theorem eq_of_mem_childNodes {owner owner' c : Node} (ho : owner ∈ root.nodes)
    (ho' : owner' ∈ root.nodes) (hc : c ∈ owner.childNodes) (hc' : c ∈ owner'.childNodes) :
    owner = owner' := by
  have hfound := (owner?_ofNode_eq_some_iff hids).2 ⟨owner, ho, rfl, c, hc, rfl⟩
  have hfound' := (owner?_ofNode_eq_some_iff hids).2 ⟨owner', ho', rfl, c, hc', rfl⟩
  exact List.inj_on_of_nodup_map hids ho ho' (Option.some.inj (hfound.symm.trans hfound'))

/-- A climb that finds a path has come to the root, from owner to owner. -/
theorem Climbs.isChain {id : NodeId} {below : List Node} {found : Option (List Node)}
    {path : List Node} (h : Climbs (ofNode root) id below found) (hfound : found = some path)
    (hbelow : ∀ n ∈ root.nodes, n.id = id →
      (n :: below).IsChain fun owner child => child ∈ owner.childNodes) :
    path.head? = some root ∧ path.IsChain (fun owner child => child ∈ owner.childNodes) ∧
      ∃ n ∈ root.nodes, n.id = id ∧ n :: below <:+ path := by
  induction h with
  | missing => cases hfound
  | @top id below n hn howner =>
    obtain rfl := Option.some.inj hfound
    obtain ⟨hn, hid⟩ := (get?_ofNode_eq_some_iff hids).1 hn
    rcases Node.eq_or_exists_owner hn with rfl | ⟨owner, ho, hc⟩
    · exact ⟨rfl, hbelow n hn hid, n, hn, hid, List.suffix_refl _⟩
    · cases howner.symm.trans ((owner?_ofNode_eq_some_iff hids).2 ⟨owner, ho, rfl, n, hc, hid⟩)
  | @step id owner below n _ hn howner _ ih =>
    obtain ⟨hn, hid⟩ := (get?_ofNode_eq_some_iff hids).1 hn
    obtain ⟨o, ho, hoid, c, hc, hcid⟩ := (owner?_ofNode_eq_some_iff hids).1 howner
    have hcn : c = n := List.inj_on_of_nodup_map hids
      (Node.mem_nodes_of_mem_childNodes_of_mem ho hc) hn (hcid.trans hid.symm)
    obtain ⟨hhead, hchain, m, -, -, hsuffix⟩ := ih hfound (by
      intro o' ho' hoid'
      obtain rfl := List.inj_on_of_nodup_map hids ho ho' (hoid.trans hoid'.symm)
      exact .cons_cons (hcn ▸ hc) (hbelow n hn hid))
    exact ⟨hhead, hchain, n, hn, hid, (List.suffix_cons m _).trans hsuffix⟩

/-- The path that an index finds leads from the root to the node with the identity. -/
theorem exists_isPath_of_path? {id : NodeId} {path : List Node}
    (h : (ofNode root).path? id = some path) :
    ∃ n ∈ root.nodes, n.id = id ∧ root.IsPath n path := by
  obtain ⟨hhead, hchain, n, hn, hid, front, rfl⟩ :=
    (path?_eq_some_iff.1 h).isChain hids rfl fun n _ _ => .singleton n
  exact ⟨n, hn, hid, hhead, List.getLast?_concat, hchain⟩

/-- The path that an index finds leads from the root to the node. -/
theorem isPath_of_path? {target : Node} (htarget : target ∈ root.nodes) {path : List Node}
    (h : (ofNode root).path? target.id = some path) : root.IsPath target path := by
  obtain ⟨n, hn, hid, hpath⟩ := exists_isPath_of_path? hids h
  obtain rfl := List.inj_on_of_nodup_map hids hn htarget hid
  exact hpath

end Trees

end NodeIndex

end Rulebook
