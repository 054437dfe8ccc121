import Rulebook.Node.Edit
import Rulebook.Program
import Rulebook.Proofs.Node.Index

/-!
# Looking up owners

An index is made from the tree alone, and does not look at the parents that nodes name. If
identities are distinct, it holds each node once, and who owns whom. A climb goes to nodes that are
higher and higher, so it comes to its end, which is the root.

## Main results

* `Node.exists_isPath`: a path leads to each node
* `NodeIndex.climbs_of_isPath`: a climb goes back along a path
* `NodeIndex.owner?_wellFounded`, `NodeIndex.ends_ofNode`: no climb goes on for ever
* `NodeIndex.ofNode_owns`: the index of a tree tells who owns whom
-/

namespace Rulebook

namespace Node

/-! ## Paths -/

section Paths

variable {root target : Node} {path : List Node}

/-- A path leads to each node of a tree. -/
theorem exists_isPath (h : target ∈ root.nodes) : ∃ path, root.IsPath target path := by
  induction root using Node.induction with
  | step root ih =>
    rcases mem_nodes_iff.1 h with rfl | ⟨c, hc, htarget⟩
    · exact ⟨[target], rfl, rfl, .singleton target⟩
    · obtain ⟨path, hhead, hlast, howned⟩ := ih c hc htarget
      obtain ⟨rest, rfl⟩ := List.head?_eq_some_iff.1 hhead
      exact ⟨root :: c :: rest, rfl, by rwa [List.getLast?_cons_cons], .cons_cons hc howned⟩

/-- The way to the owner of the node that a path leads to. -/
theorem IsPath.init {owner : Node} {front : List Node}
    (h : root.IsPath target (front ++ [owner] ++ [target])) :
    root.IsPath owner (front ++ [owner]) ∧ target ∈ owner.childNodes := by
  obtain ⟨hhead, -, howned⟩ := h
  refine ⟨⟨?_, List.getLast?_concat, howned.left_of_append⟩, ?_⟩
  · rwa [List.head?_append_of_ne_nil _ (by simp)] at hhead
  · rw [List.append_assoc] at howned
    exact (List.isChain_cons_cons.1 howned.right_of_append).1

end Paths

end Node

namespace NodeIndex

/-- A table has as many entries as were entered, if each has a key of its own. -/
theorem size_foldl_insert {α : Type} {entries : List (Nat × α)}
    (hkeys : (entries.map Prod.fst).Nodup) :
    (entries.foldl (fun table p => table.insert p.1 p.2) (∅ : Std.TreeMap Nat α)).size =
      entries.length := by
  induction entries using List.reverseRecOn with
  | nil => rfl
  | append_singleton entries p ih =>
    rw [List.map_append, List.nodup_append] at hkeys
    obtain ⟨hkeys, -, hnew⟩ := hkeys
    have hnone : p.1 ∉ entries.foldl (fun table p => table.insert p.1 p.2)
        (∅ : Std.TreeMap Nat α) := by
      intro hmem
      have hfound := Std.TreeMap.getElem?_eq_some_getElem hmem
      rw [getElem?_foldl_insert_eq_some_iff hkeys] at hfound
      exact hnew p.1 (List.mem_map.2 ⟨_, hfound, rfl⟩) p.1 (by simp) rfl
    rw [Std.TreeMap.mem_iff_contains] at hnone
    rw [List.foldl_append, List.foldl_cons, List.foldl_nil, Std.TreeMap.size_insert, if_neg hnone,
      ih hkeys, List.length_append, List.length_singleton]

section Trees

variable {root : Node} (hids : (root.nodes.map Node.id).Nodup)

include hids

/-! ## Sizes -/

/-- Each node is entered under an identity of its own. -/
theorem size_ofNode : (ofNode root).size = root.count := by
  obtain ⟨ns, hns, hnodes, -⟩ := exists_ofNode_eq root
  have hkeys : ((ns.map fun n => (n.id.number, n)).map Prod.fst).Nodup := by
    have hnumbers := ((hns.map Node.id).nodup_iff.2 hids).map fun i j hij => NodeId.number_inj.1 hij
    simpa [Function.comp_def] using hnumbers
  rw [size, hnodes, size_foldl_insert hkeys, List.length_map, hns.length_eq, Node.count_eq]

/-! ## Climbing -/

/-- The owner of a node is one of which it is a child. -/
theorem parent?_ofNode_eq_some_iff {id : NodeId} {owner : Node} :
    (ofNode root).parent? id = some owner ↔
      owner ∈ root.nodes ∧ ∃ c ∈ owner.childNodes, c.id = id := by
  simp only [parent?, Option.bind_eq_some_iff, owner?_ofNode_eq_some_iff hids,
    get?_ofNode_eq_some_iff hids]
  constructor
  · rintro ⟨_, ⟨n, hn, rfl, hc⟩, ho, hid⟩
    obtain rfl := List.inj_on_of_nodup_map hids ho hn hid
    exact ⟨ho, hc⟩
  · rintro ⟨ho, hc⟩
    exact ⟨owner.id, ⟨owner, ho, rfl, hc⟩, ho, rfl⟩

/-- The root has no owner, since it is higher than all other nodes. -/
theorem owner?_ofNode_root : (ofNode root).owner? root.id = none := by
  refine Option.eq_none_iff_forall_not_mem.2 fun _ howner => ?_
  obtain ⟨owner, ho, -, c, hc, hid⟩ := (owner?_ofNode_eq_some_iff hids).1 howner
  obtain rfl := List.inj_on_of_nodup_map hids
    (Node.mem_nodes_of_mem_childNodes_of_mem ho hc) root.mem_nodes_self hid
  have hlt := Node.depth_lt_of_mem_childNodes hc
  have hle := Node.depth_le_of_mem_nodes ho
  omega

theorem parent?_ofNode_eq_none_iff {id : NodeId} :
    (ofNode root).parent? id = none ↔ id = root.id ∨ id ∉ root.nodes.map Node.id := by
  constructor
  · intro hnone
    by_contra hne
    obtain ⟨hroot, hmem⟩ := not_or.1 hne
    obtain ⟨n, hn, rfl⟩ := List.mem_map.1 (not_not.1 hmem)
    rcases Node.eq_or_exists_owner hn with rfl | ⟨owner, ho, hc⟩
    · exact hroot rfl
    · cases hnone.symm.trans ((parent?_ofNode_eq_some_iff hids).2 ⟨ho, n, hc, rfl⟩)
  · rintro (rfl | hmem)
    · rw [parent?, owner?_ofNode_root hids, Option.bind_none]
    · refine Option.eq_none_iff_forall_not_mem.2 fun owner howner => hmem ?_
      obtain ⟨ho, c, hc, rfl⟩ := (parent?_ofNode_eq_some_iff hids).1 howner
      exact List.mem_map_of_mem (Node.mem_nodes_of_mem_childNodes_of_mem ho hc)

/-- A climb begins at the end of a path and goes back to the root. -/
theorem climbs_of_isPath {n : Node} {front below : List Node}
    (hpath : root.IsPath n (front ++ [n])) :
    Climbs (ofNode root) n.id below (some (front ++ n :: below)) := by
  -- Induction on the path from its end, which is where the climb begins.
  induction front using List.reverseRecOn generalizing n below with
  | nil =>
    obtain rfl : n = root := Option.some.inj hpath.head
    exact .top ((get?_ofNode_eq_some_iff hids).2 ⟨n.mem_nodes_self, rfl⟩) (owner?_ofNode_root hids)
  | append_singleton front owner ih =>
    obtain ⟨hinit, hc⟩ := hpath.init
    have ho : owner ∈ root.nodes := hinit.subset owner (by simp)
    have hn : n ∈ root.nodes := Node.mem_nodes_of_mem_childNodes_of_mem ho hc
    have howner := (owner?_ofNode_eq_some_iff hids).2 ⟨owner, ho, rfl, n, hc, rfl⟩
    rw [← List.append_cons]
    exact .step ((get?_ofNode_eq_some_iff hids).2 ⟨hn, rfl⟩) howner (ih hinit)

/-- The path that an index finds is the one that leads to the node. -/
theorem path?_ofNode_eq_some_iff {id : NodeId} {path : List Node} :
    (ofNode root).path? id = some path ↔ ∃ n ∈ root.nodes, n.id = id ∧ root.IsPath n path := by
  constructor
  · exact exists_isPath_of_path? hids
  · rintro ⟨n, -, rfl, hpath⟩
    obtain ⟨front, rfl⟩ := List.getLast?_eq_some_iff.1 hpath.last
    exact path?_eq_some_iff.2 (climbs_of_isPath hids hpath)

/-- Owners are higher than what they own, so no climb goes on for ever. -/
theorem owner?_wellFounded :
    WellFounded fun owner id => (ofNode root).owner? id = some owner := by
  have hrank : WellFounded (InvImage (· < ·) fun id =>
      root.depth - (((ofNode root).get? id).map Node.depth).getD 0) := InvImage.wf _ wellFounded_lt
  refine Subrelation.wf ?_ hrank
  intro owner id h
  obtain ⟨o, ho, rfl, c, hc, rfl⟩ := (owner?_ofNode_eq_some_iff hids).1 h
  have hchild := Node.mem_nodes_of_mem_childNodes_of_mem ho hc
  have hlt := Node.depth_lt_of_mem_childNodes hc
  have hle := Node.depth_le_of_mem_nodes ho
  show root.depth - _ < root.depth - _
  rw [(get?_ofNode_eq_some_iff hids).2 ⟨ho, rfl⟩, (get?_ofNode_eq_some_iff hids).2 ⟨hchild, rfl⟩,
    Option.map_some, Option.map_some, Option.getD_some, Option.getD_some]
  omega

theorem ends_ofNode (id : NodeId) : (ofNode root).Ends id :=
  ends_iff_acc.2 (Subrelation.accessible And.right ((owner?_wellFounded hids).apply id))

end Trees

/-- **An index tells who owns whom, whatever parents the nodes name.** It holds each node once, and
finds the owner of each node but the root. From each node owners lead up to the root after finitely
many steps, so every climb ends, and the path from the root down to the node is found. -/
theorem ofNode_owns (root : Node) (hids : (root.nodes.map Node.id).Nodup) :
    (ofNode root).size = root.count ∧
      (∀ id n, (ofNode root).get? id = some n ↔ n ∈ root.nodes ∧ n.id = id) ∧
      (∀ id owner, (ofNode root).parent? id = some owner ↔
        owner ∈ root.nodes ∧ ∃ c ∈ owner.childNodes, c.id = id) ∧
      (∀ id, (ofNode root).parent? id = none ↔ id = root.id ∨ id ∉ root.nodes.map Node.id) ∧
      (WellFounded fun owner id => (ofNode root).owner? id = some owner) ∧
      (∀ id, (ofNode root).Ends id) ∧
      (∀ n ∈ root.nodes, ∃ path, (ofNode root).path? n.id = some path ∧ root.IsPath n path) ∧
      ∀ id ∉ root.nodes.map Node.id, (ofNode root).path? id = none := by
  refine ⟨size_ofNode hids, fun _ _ => get?_ofNode_eq_some_iff hids,
    fun _ _ => parent?_ofNode_eq_some_iff hids, fun _ => parent?_ofNode_eq_none_iff hids,
    owner?_wellFounded hids, ends_ofNode hids, fun n hn => ?_, fun id h => ?_⟩
  · obtain ⟨path, hpath⟩ := Node.exists_isPath hn
    exact ⟨path, (path?_ofNode_eq_some_iff hids).2 ⟨n, hn, rfl, hpath⟩, hpath⟩
  · refine Option.eq_none_iff_forall_not_mem.2 fun path hpath => h ?_
    obtain ⟨n, hn, rfl, -⟩ := (path?_ofNode_eq_some_iff hids).1 hpath
    exact List.mem_map_of_mem hn

/-- A rule that names the call behind it as its parent, and a decision that names no node of the
tree. -/
def strayed : Node :=
  let tree := (Program.parse {} 256 "rule r { if x then win end }\nr()" default).1.tree
  (tree.modifyAt (Node.setParent (some ⟨5⟩)) [0]).modifyAt (Node.setParent (some ⟨99⟩)) [0, 0, 0]

theorem ofNode_owns_strayed :
    (strayed.nodes.map Node.id).Nodup ∧ strayed.check ≠ .ok () ∧
      ∃ win, strayed.findConsequence? "win" = some win ∧ (ofNode strayed).size = 7 ∧
        (ofNode strayed).parent? strayed.id = none ∧
        ∃ path, (ofNode strayed).path? win.id = some path ∧ strayed.IsPath win path := by
  have hids : (strayed.nodes.map Node.id).Nodup := by decide +kernel
  have hcheck : strayed.check.isOk = false := by decide +kernel
  obtain ⟨hsize, -, -, hnone, -, -, hpath, -⟩ := ofNode_owns strayed hids
  obtain ⟨win, hwin⟩ : ∃ win, strayed.findConsequence? "win" = some win :=
    Option.isSome_iff_exists.1 (by decide +kernel)
  have hmem : win ∈ strayed.nodes := by
    rw [Node.findConsequence?, Node.find?_eq] at hwin
    exact List.mem_of_find?_eq_some hwin
  refine ⟨hids, ?_, win, hwin, hsize.trans (by decide +kernel), (hnone _).2 (.inl rfl),
    hpath win hmem⟩
  intro hok
  rw [hok] at hcheck
  cases hcheck

end NodeIndex

end Rulebook
