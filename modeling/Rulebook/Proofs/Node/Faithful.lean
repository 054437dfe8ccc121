import Rulebook.Proofs.Node.Check
import Rulebook.Proofs.Node.Copied

/-!
# Faithful copies

A copy of a tree carries what the tree carries, at the same places, down to the flags and counts of
evaluations. Its identities are new and its links are sound. Nothing is asked of the tree for this:
it may be of any depth, nodes of it may share an identity, and its own links may be wrong.

A copy is made with a stack of finished nodes. On leaving a node, what became of its children is on
top of that stack: first the operands that are present, then the generic children. So the slots of
the node are filled again one after the other, and what is left are its generic children.

## Main definitions

* `Kind.bare`: what a node carries, without its operands
* `Node.Copies`: a tree carries exactly what another one carries
* `Node.WellLinked`: all nodes of a tree below the root name their owners as parents

## Main results

* `Kind.rel_refill`: the slots of a node are filled with what its operands became
* `Node.exists_duplicate`: the stack machine makes a sound copy of every tree, in every state
* `Node.copy_faithful`: what a copy is
-/

namespace Rulebook

/-! ## Slots that are filled again -/

namespace Kind

section Slots

variable {α β γ : Type} {R : α → β → Prop}

/-- What a node carries, without its operands. -/
def bare (k : Kind α) : Kind Empty :=
  k.mapSlots fun _ => none

@[simp] theorem bare_map (f : α → β) (k : Kind α) : (k.map f).bare = k.bare := by
  cases k <;> rfl

/-- Operands may be replaced by others that are related too. -/
theorem slots_rel_map {R' : α → γ → Prop} {f : β → γ} {slots : List (Option α)} {k : Kind β}
    (h : List.Forall₂ (Option.Rel R) slots k.slots) (hR : ∀ x y, R x y → R' x (f y)) :
    List.Forall₂ (Option.Rel R') slots (k.map f).slots := by
  rw [slots_map, List.forall₂_map_right_iff]
  refine h.imp fun x y hxy => ?_
  cases hxy with
  | none => exact .none
  | some hxy => exact .some (hR _ _ hxy)

/-- Fills the slots of a row that are present with the next of the given parts. -/
def fillSlots : List (Option α) → List β → List (Option β) × List β
  | [], parts => ([], parts)
  | slot :: slots, parts =>
    let (slot, parts) := takePart slot parts
    let (slots, parts) := fillSlots slots parts
    (slot :: slots, parts)

theorem slots_refill (k : Kind α) (parts : List β) :
    ((k.refill parts).1.slots, (k.refill parts).2) = fillSlots k.slots parts := by
  cases k <;> rfl

theorem bare_refill (k : Kind α) (parts : List β) : (k.refill parts).1.bare = k.bare := by
  cases k <;> rfl

/-- No part is lost. -/
theorem fillSlots_parts (slots : List (Option α)) (parts : List β) :
    (fillSlots slots parts).1.filterMap id ++ (fillSlots slots parts).2 = parts := by
  induction slots generalizing parts with
  | nil => rfl
  | cons slot slots ih =>
    cases slot with
    | none => exact ih parts
    | some a =>
      cases parts with
      | nil => exact ih []
      | cons part parts => exact congrArg (part :: ·) (ih parts)

/-- Each slot gets what its operand is related to, and the rest is left. -/
theorem fillSlots_rel {slots : List (Option α)} {rest : List α} {parts : List β}
    (h : List.Forall₂ R (slots.filterMap id ++ rest) parts) :
    List.Forall₂ (Option.Rel R) slots (fillSlots slots parts).1 ∧
      List.Forall₂ R rest (fillSlots slots parts).2 := by
  induction slots generalizing parts with
  | nil => exact ⟨.nil, h⟩
  | cons slot slots ih =>
    cases slot with
    | none =>
      obtain ⟨hslots, hrest⟩ := ih h
      exact ⟨.cons .none hslots, hrest⟩
    | some a =>
      cases h with
      | cons hab h =>
        obtain ⟨hslots, hrest⟩ := ih h
        exact ⟨.cons (.some hab) hslots, hrest⟩

theorem refill_parts (k : Kind α) (parts : List β) :
    (k.refill parts).1.operands ++ (k.refill parts).2 = parts := by
  obtain ⟨hslots, hrest⟩ := Prod.mk.inj (slots_refill k parts)
  rw [operands, hslots, hrest, fillSlots_parts]

/-- The slots of a node are filled with what its operands became, and what its generic children
became is left. -/
theorem rel_refill {k : Kind α} {children : List α} {parts : List β}
    (h : List.Forall₂ R (k.operands ++ children) parts) :
    List.Forall₂ (Option.Rel R) k.slots (k.refill parts).1.slots ∧
      List.Forall₂ R children (k.refill parts).2 := by
  obtain ⟨hslots, hrest⟩ := Prod.mk.inj (slots_refill k parts)
  rw [hslots, hrest]
  exact fillSlots_rel h

end Slots

end Kind

namespace Node

/-! ## What a copy carries -/

section Copies

/-- A tree carries exactly what another one carries, at the same places of the source, with the
same operands present and the same generic children. Only identities and parents may differ. -/
inductive Copies : Node → Node → Prop where
  | intro {n m : Node} (hbare : m.kind.bare = n.kind.bare)
      (hslots : List.Forall₂ (Option.Rel Copies) n.kind.slots m.kind.slots)
      (hspan : m.span = n.span) (hline : m.line = n.line)
      (hchildren : List.Forall₂ Copies n.children m.children) : Copies n m

theorem Copies.withParent {n m : Node} (h : Copies n m) (p : NodeId) :
    Copies n (m.withParent p) := by
  obtain ⟨hbare, hslots, hspan, hline, hchildren⟩ := h
  exact .intro hbare hslots hspan hline hchildren

end Copies

/-! ## Links -/

section Links

/-- All nodes of a tree below the root name their owners as parents. -/
def WellLinked (n : Node) : Prop :=
  ∀ m ∈ n.nodes, ∀ c ∈ m.childNodes, c.parent = some m.id

theorem wellLinked_iff {n : Node} :
    n.WellLinked ↔ (∀ c ∈ n.childNodes, c.parent = some n.id) ∧
      ∀ c ∈ n.childNodes, c.WellLinked :=
  forall_mem_nodes_iff

theorem wellLinked_withParent {n : Node} {p : NodeId} :
    (n.withParent p).WellLinked ↔ n.WellLinked := by
  rw [wellLinked_iff, wellLinked_iff]
  rfl

theorem wellLinked_withSpan {n : Node} {span : Span} {line : Nat} :
    (n.withSpan span line).WellLinked ↔ n.WellLinked := by
  rw [wellLinked_iff, wellLinked_iff]
  rfl

/-- A new node is the parent of its children. -/
theorem WellLinked.linked {id : NodeId} {kind : Kind Node} {children : List Node}
    (h : ∀ c ∈ kind.operands ++ children, c.WellLinked) :
    (linked id kind children).WellLinked := by
  rw [wellLinked_iff, childNodes_linked]
  simp only [List.forall_mem_map]
  exact ⟨fun _ _ => rfl, fun c hc => wellLinked_withParent.2 (h c hc)⟩

end Links

/-! ## Numbers -/

section Numbers

/-- Some nodes have successive numbers, from `next` on. -/
abbrev Issued (next : Nat) (ns : List Node) : Prop :=
  Numbered (fun id => id) next ns

theorem issued_iff {next : Nat} {ns : List Node} :
    Issued next ns ↔ ns.map Node.id = (List.range' next ns.length).map NodeId.mk :=
  Iff.rfl

theorem map_id_postorder_withParent (n : Node) (p : NodeId) :
    (n.withParent p).postorder.map Node.id = n.postorder.map Node.id := by
  rw [postorder_eq, postorder_eq n, List.map_append, List.map_append]
  rfl

/-- New links do not change the numbers below a node. -/
theorem map_id_flatMap_withParent (ns : List Node) (p : NodeId) :
    ((ns.map (withParent p)).flatMap postorder).map Node.id =
      (ns.flatMap postorder).map Node.id := by
  rw [List.flatMap_map, List.map_flatMap, List.map_flatMap]
  exact List.flatMap_congr fun n _ => map_id_postorder_withParent n p

theorem length_flatMap_withParent (ns : List Node) (p : NodeId) :
    ((ns.map (withParent p)).flatMap postorder).length = (ns.flatMap postorder).length := by
  have h := congrArg List.length (map_id_flatMap_withParent ns p)
  rwa [List.length_map, List.length_map] at h

variable {next : Nat} {ns : List Node}

theorem Issued.withParent (h : Issued next (ns.flatMap postorder)) (p : NodeId) :
    Issued next ((ns.map (withParent p)).flatMap postorder) := by
  rw [issued_iff] at h ⊢
  rw [map_id_flatMap_withParent, length_flatMap_withParent, h]

theorem Issued.nodup (h : Issued next ns) : (ns.map Node.id).Nodup := by
  have hrange : (List.range' next ns.length).Nodup := List.nodup_range'
  rw [issued_iff.1 h]
  exact hrange.map fun a b => NodeId.mk.inj

theorem Issued.le_of_mem (h : Issued next ns) {n : Node} (hn : n ∈ ns) :
    next ≤ n.id.number := by
  have hmem : n.id ∈ ns.map Node.id := List.mem_map_of_mem hn
  rw [issued_iff.1 h] at hmem
  obtain ⟨i, hi, hid⟩ := List.mem_map.1 hmem
  rw [← hid]
  exact (List.mem_range'_1.1 hi).1

end Numbers

/-! ## The stack machine -/

section Machine

/-- A sound copy of a tree: it carries the same, its nodes are numbered from `next` on, and its
links are right. -/
structure Duplicate (n : Node) (next : Nat) (m : Node) : Prop where
  copies : Copies n m
  issued : Issued next m.postorder
  parent : m.parent = none
  wellLinked : m.WellLinked

/-- The children of a node are copied one after the other. -/
theorem exists_finishesRow {ns : List Node}
    (h : ∀ n ∈ ns, ∀ next, ∃ m, Finishes copyNode n ⟨next⟩ m ⟨next + m.postorder.length⟩ ∧
      n.Duplicate next m) (next : Nat) :
    ∃ ms, FinishesRow copyNode ns ⟨next⟩ ms ⟨next + (ms.flatMap postorder).length⟩ ∧
      List.Forall₂ Copies ns ms ∧ Issued next (ms.flatMap postorder) ∧
        ∀ m ∈ ms, m.WellLinked := by
  induction ns generalizing next with
  | nil => exact ⟨[], .nil _, .nil, rfl, List.forall_mem_nil _⟩
  | cons n ns ih =>
    obtain ⟨m, hm, hcopy⟩ := h n List.mem_cons_self next
    obtain ⟨ms, hms, hcopies, hissued, hlinked⟩ :=
      ih (fun k hk => h k (List.mem_cons_of_mem n hk)) (next + m.postorder.length)
    -- The nodes of the first copy take the first numbers, and the others go on from there.
    refine ⟨m :: ms, ?_, .cons hcopy.copies hcopies, ?_,
      List.forall_mem_cons.2 ⟨hcopy.wellLinked, hlinked⟩⟩
    · rw [List.flatMap_cons, List.length_append, ← Nat.add_assoc]
      exact .cons hm hms
    · rw [List.flatMap_cons]
      exact numbered_append.2 ⟨hcopy.issued, hissued⟩

/-- From sound copies of its children, a node is copied soundly. -/
theorem Duplicate.of_childNodes {n : Node} {next : Nat} {ms : List Node}
    (hcopies : List.Forall₂ Copies n.childNodes ms)
    (hissued : Issued next (ms.flatMap postorder)) (hlinked : ∀ m ∈ ms, m.WellLinked) :
    n.Duplicate next ((linked ⟨next + (ms.flatMap postorder).length⟩ (n.kind.refill ms).1
      (n.kind.refill ms).2).withSpan n.span n.line) := by
  obtain ⟨hslots, hchildren⟩ := Kind.rel_refill hcopies
  have hparts := Kind.refill_parts n.kind ms
  constructor
  case copies =>
    refine .intro ((Kind.bare_map _ _).trans (Kind.bare_refill n.kind ms))
      (Kind.slots_rel_map hslots fun _ _ h => h.withParent _) rfl rfl ?_
    rw [withSpan, linked, List.forall₂_map_right_iff]
    exact hchildren.imp fun _ _ h => h.withParent _
  case issued =>
    -- The nodes below have their numbers already, and the node itself gets the next one.
    rw [postorder_eq, childNodes_withSpan, childNodes_linked, hparts]
    refine numbered_append.2 ⟨Issued.withParent hissued _, ?_⟩
    rw [length_flatMap_withParent]
    rfl
  case parent => rfl
  case wellLinked => exact wellLinked_withSpan.2 (.linked (by rwa [hparts]))

/-- The stack machine makes a sound copy of every tree, whatever the next identity is. -/
theorem exists_duplicate (n : Node) (next : Nat) :
    ∃ m, Finishes copyNode n ⟨next⟩ m ⟨next + m.postorder.length⟩ ∧ n.Duplicate next m := by
  induction n using Node.induction generalizing next with
  | step n ih =>
    obtain ⟨ms, hms, hcopies, hissued, hlinked⟩ := exists_finishesRow ih next
    refine ⟨_, ?_, Duplicate.of_childNodes hcopies hissued hlinked⟩
    -- One more number is issued than there are nodes in the copies of the children.
    rw [postorder_eq, childNodes_withSpan, childNodes_linked, Kind.refill_parts,
      List.length_append, length_flatMap_withParent, List.length_singleton, ← Nat.add_assoc]
    exact Finishes.of_childNodes hms

theorem duplicate_copy (n : Node) (next : NodeId) :
    n.Duplicate next.number (n.copy next).1 := by
  obtain ⟨m, hm, hcopy⟩ := exists_duplicate n next.number
  have hcopied : (n.copy next).1 = m := congrArg Prod.fst hm.rebuild
  rwa [hcopied]

end Machine

/-! ## Copies -/

section Main

/-- **A copy is exact and shares nothing.** If the identities of a tree have been issued, a copy of
it carries exactly what the tree carries, has identities that are all different and none of which
is in the tree, and has sound links, whatever the links of the tree are. -/
theorem copy_faithful {n : Node} {next : NodeId} (hids : ∀ k ∈ n.nodes, k.id < next) :
    Copies n (n.copy next).1 ∧
      ((n.copy next).1.nodes.map Node.id).Nodup ∧
      (∀ m ∈ (n.copy next).1.nodes, ∀ k ∈ n.nodes, m.id ≠ k.id) ∧
      (n.copy next).1.parent = none ∧ (n.copy next).1.WellLinked := by
  have hcopy := duplicate_copy n next
  have hperm := (n.copy next).1.postorder_perm
  refine ⟨hcopy.copies, (hperm.map Node.id).nodup_iff.1 hcopy.issued.nodup, ?_, hcopy.parent,
    hcopy.wellLinked⟩
  intro m hm k hk heq
  have hle := hcopy.issued.le_of_mem (hperm.mem_iff.2 hm)
  have hlt : k.id.number < next.number := hids k hk
  rw [heq] at hle
  exact Nat.not_lt.2 hle hlt

/-- A leaf that has been executed and names a node as parent that is not its owner. -/
def strayLeaf : Node :=
  ⟨⟨2⟩, .consequence { action := "stop", kind := .custom, executed := true }, {}, 3, some ⟨9⟩, []⟩

/-- A tree of this leaf, twice. Two of its operands are absent, and its root names a parent. -/
def strayTree : Node :=
  ⟨⟨1⟩, .decision none (some strayLeaf) none, {}, 2, some ⟨2⟩, [strayLeaf]⟩

theorem nodes_strayTree : strayTree.nodes = [strayTree, strayLeaf, strayLeaf] := by
  have hleaf : strayLeaf.nodes = [strayLeaf] := nodes_eq strayLeaf
  have htree : strayTree.nodes = strayTree :: (strayLeaf.nodes ++ (strayLeaf.nodes ++ [])) :=
    nodes_eq strayTree
  rw [htree, hleaf]
  rfl

theorem copy_faithful_strayTree :
    (∀ k ∈ strayTree.nodes, k.id < ⟨3⟩) ∧
      Copies strayTree (strayTree.copy ⟨3⟩).1 ∧
      ((strayTree.copy ⟨3⟩).1.nodes.map Node.id).Nodup ∧
      (∀ m ∈ (strayTree.copy ⟨3⟩).1.nodes, ∀ k ∈ strayTree.nodes, m.id ≠ k.id) ∧
      (strayTree.copy ⟨3⟩).1.parent = none ∧ (strayTree.copy ⟨3⟩).1.WellLinked := by
  have hids : ∀ k ∈ strayTree.nodes, k.id < ⟨3⟩ := by
    rw [nodes_strayTree]
    decide
  exact ⟨hids, copy_faithful hids⟩

end Main

end Node

end Rulebook
