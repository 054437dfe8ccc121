import Mathlib.Data.List.Flatten
import Mathlib.Data.List.Forall2
import Rulebook.Proofs.Node.Check

/-!
# Trees without constants to fold

Folding goes through a tree once, from the leaves up. That is enough: a node that is replaced has a
literal's kind from then on, and what folding asks of a node are the kinds of its operands, which
are folded before it. So nothing that comes later makes a node foldable that was passed by.

## Main definitions

* `Node.Irreducible`, `Node.Normal`: folding leaves a node, or all nodes of a tree, as they are
* `Node.Keeps`: what folding keeps of a node
* `Node.folded`: what becomes of a tree that is folded in its place

## Main results

* `Node.fold_succ_cases`: what folding makes of a node whose children are folded
* `Node.normal_fold`, `Node.foldLevels_of_normal`: one pass leads to a normal form
* `Node.survivors_fold`: the nodes of a folded tree are nodes of the tree
* `Node.depth_fold_le`, `Node.flawless_fold`: folded trees are no deeper and lack nothing
-/

namespace Rulebook

namespace Node

/-! ## One node -/

section Here

/-- Folding leaves a node as it is. -/
def Irreducible (n : Node) : Prop :=
  n.constant?.bind Literal.ofValue? = none

theorem irreducible_of_literal {n : Node} {l : Literal} (h : n.kind = .literal l) :
    n.Irreducible := by
  rw [Irreducible, constant?, h]
  rfl

theorem Irreducible.foldHere_eq {n : Node} (h : n.Irreducible) : n.foldHere = (n, 0) := by
  rw [foldHere, show n.constant?.bind Literal.ofValue? = none from h]

/-- What folding makes of a node whose children are folded: nothing, if it is irreducible, and
otherwise a literal, which keeps everything but the operands. -/
theorem fold_succ_cases (levels : Nat) (n : Node) :
    (n.descend levels).Irreducible ∧ n.fold (levels + 1) = n.descend levels ∨
      ∃ l, n.fold (levels + 1) = { n.descend levels with kind := .literal l } := by
  rw [fold_succ]
  cases h : (n.descend levels).constant?.bind Literal.ofValue? with
  | none => exact .inl ⟨h, congrArg Prod.fst (Irreducible.foldHere_eq h)⟩
  | some l => exact .inr ⟨l, by rw [foldHere, h]⟩

theorem childNodes_descend (levels : Nat) (n : Node) :
    (n.descend levels).childNodes = n.childNodes.map (fold levels) := by
  rw [childNodes, descend, Kind.operands_map, childNodes, List.map_append]

/-- The children of a folded node are folded children of the node, and their order is kept. -/
theorem exists_childNodes_fold (levels : Nat) (n : Node) :
    ∃ cs : List Node, cs.Sublist n.childNodes ∧
      (n.fold (levels + 1)).childNodes = cs.map (fold levels) := by
  rcases fold_succ_cases levels n with ⟨-, h⟩ | ⟨l, h⟩
  · exact ⟨n.childNodes, .refl _, by rw [h, childNodes_descend]⟩
  · exact ⟨n.children, List.sublist_append_right .., by rw [h]; rfl⟩

/-- What folding keeps of a node. The generic children are folded themselves. -/
structure Keeps (n m : Node) : Prop where
  id : m.id = n.id
  span : m.span = n.span
  line : m.line = n.line
  parent : m.parent = n.parent
  children : m.children.map Node.id = n.children.map Node.id

theorem Keeps.refl (n : Node) : n.Keeps n :=
  ⟨rfl, rfl, rfl, rfl, rfl⟩

theorem keeps_fold (levels : Nat) (n : Node) : n.Keeps (n.fold levels) := by
  induction levels generalizing n with
  | zero => exact .refl n
  | succ levels ih =>
    have hchildren : (n.children.map (fold levels)).map Node.id = n.children.map Node.id := by
      rw [List.map_map]
      exact List.map_congr_left fun c _ => (ih c).id
    rcases fold_succ_cases levels n with ⟨-, h⟩ | ⟨l, h⟩
    · rw [h]
      exact ⟨rfl, rfl, rfl, rfl, hchildren⟩
    · rw [h]
      exact ⟨rfl, rfl, rfl, rfl, hchildren⟩

end Here

/-! ## Normal forms -/

section Normal

/-- Folding leaves all nodes of a tree as they are. -/
def Normal (n : Node) : Prop :=
  ∀ m ∈ n.nodes, m.Irreducible

theorem normal_iff {n : Node} :
    n.Normal ↔ n.Irreducible ∧ ∀ c ∈ n.childNodes, c.Normal :=
  forall_mem_nodes_iff

/-- One pass over all levels of a tree leaves no node that can be folded. -/
theorem normal_fold {levels : Nat} {n : Node} (h : n.depth ≤ levels) : (n.fold levels).Normal := by
  induction levels generalizing n with
  | zero =>
    have := n.depth_pos
    omega
  | succ levels ih =>
    have hbelow : ∀ c ∈ n.childNodes, (c.fold levels).Normal := fun c hc =>
      ih (by have := depth_lt_of_mem_childNodes hc; omega)
    refine normal_iff.2 ⟨?_, fun c hc => ?_⟩
    · rcases fold_succ_cases levels n with ⟨hn, h⟩ | ⟨l, h⟩
      · rwa [h]
      · rw [h]
        exact irreducible_of_literal rfl
    · obtain ⟨cs, hcs, hnodes⟩ := exists_childNodes_fold levels n
      rw [hnodes] at hc
      obtain ⟨d, hd, rfl⟩ := List.mem_map.1 hc
      exact hbelow d (hcs.subset hd)

theorem foldEach_of_forall {f : Node → Node × Nat} {ns : List Node}
    (h : ∀ n ∈ ns, f n = (n, 0)) : foldEach f ns = (ns, 0) := by
  induction ns with
  | nil => rfl
  | cons n ns ih =>
    obtain ⟨hn, hns⟩ := List.forall_mem_cons.1 h
    rw [foldEach, hn, ih hns]

/-- Folding finds nothing to do in a tree without constants. -/
theorem Normal.foldLevels_eq {n : Node} (h : n.Normal) (levels : Nat) :
    n.foldLevels levels = (n, 0) := by
  induction levels generalizing n with
  | zero => rfl
  | succ levels ih =>
    obtain ⟨hn, hchildren⟩ := normal_iff.1 h
    have hoperands : foldEach (foldLevels levels) n.kind.operands = (n.kind.operands, 0) :=
      foldEach_of_forall fun c hc => ih (hchildren c (List.mem_append_left _ hc))
    have hgeneric : foldEach (foldLevels levels) n.children = (n.children, 0) :=
      foldEach_of_forall fun c hc => ih (hchildren c (List.mem_append_right _ hc))
    have hrefill : (n.kind.refill n.kind.operands).1 = n.kind := by
      have h := Kind.refill_operands (fun c : Node => c) n.kind
      rwa [List.map_id', Kind.map_id'] at h
    rw [foldLevels, hoperands, hgeneric]
    dsimp only
    rw [hrefill]
    cases n
    rw [hn.foldHere_eq]
    rfl

end Normal

/-! ## What is left of a tree -/

section Survivors

/-- The nodes of a folded tree are, in order, nodes of the tree. -/
theorem survivors_fold (levels : Nat) (n : Node) :
    ∃ survivors, survivors.Sublist n.nodes ∧
      List.Forall₂ Keeps survivors (n.fold levels).nodes := by
  induction levels generalizing n with
  | zero => exact ⟨n.nodes, .refl _, List.forall₂_same.2 fun m _ => .refl m⟩
  | succ levels ih =>
    obtain ⟨cs, hcs, hnodes⟩ := exists_childNodes_fold levels n
    have hrow : ∃ survivors, survivors.Sublist (cs.flatMap nodes) ∧
        List.Forall₂ Keeps survivors ((cs.map (fold levels)).flatMap nodes) := by
      clear hcs hnodes
      induction cs with
      | nil => exact ⟨[], .refl _, .nil⟩
      | cons c cs ihcs =>
        obtain ⟨kept, hkept, hc⟩ := ih c
        obtain ⟨rest, hrest, hcs⟩ := ihcs
        exact ⟨kept ++ rest, hkept.append hrest, List.rel_append hc hcs⟩
    obtain ⟨survivors, hsurvivors, hkeeps⟩ := hrow
    rw [nodes_eq n, nodes_eq (n.fold _), hnodes]
    exact ⟨n :: survivors, (hsurvivors.trans (hcs.flatMap nodes)).cons_cons n,
      .cons (keeps_fold _ n) hkeeps⟩

/-- A folded tree has no more nodes. -/
theorem length_nodes_fold_le (levels : Nat) (n : Node) :
    (n.fold levels).nodes.length ≤ n.nodes.length := by
  obtain ⟨survivors, hsub, hkeeps⟩ := survivors_fold levels n
  rw [← hkeeps.length_eq]
  exact hsub.length_le

/-- A folded tree is no deeper. -/
theorem depth_fold_le (levels : Nat) (n : Node) : (n.fold levels).depth ≤ n.depth := by
  induction levels generalizing n with
  | zero => exact Nat.le_refl _
  | succ levels ih =>
    obtain ⟨cs, hcs, hnodes⟩ := exists_childNodes_fold levels n
    have hle : tallest (cs.map (fold levels)) ≤ tallest n.childNodes := by
      refine tallest_le fun c hc => ?_
      obtain ⟨d, hd, rfl⟩ := List.mem_map.1 hc
      exact (ih d).trans (tallest_le_iff.1 (Nat.le_refl _) d (hcs.subset hd))
    rw [depth_eq, depth_eq n, hnodes]
    omega

end Survivors

/-! ## Checks -/

section Checks

theorem partDefect?_descend (levels : Nat) (n : Node) :
    (n.descend levels).partDefect? = n.partDefect? := by
  obtain ⟨id, kind, span, line, parent, children⟩ := n
  cases kind with
  | decision c y n => cases c <;> rfl
  | consequence c => simp [partDefect?, descend, Kind.map, Kind.mapSlots]
  | rule head body => cases body <;> rfl
  | logic op l r => cases op <;> cases l <;> cases r <;> rfl
  | comparison op l r | chain op l r => cases l <;> cases r <;> rfl
  | arithmetic op l r => cases l <;> cases r <;> rfl
  | _ => rfl

/-- A node has no defect if it has its parts, its operands name no other parent, and its generic
children name it. -/
theorem defect?_eq_none_iff {n : Node} :
    n.defect? = none ↔ n.partDefect? = none ∧
      (∀ c ∈ n.kind.operands, c.parent = none ∨ c.parent = some n.id) ∧
        ∀ c ∈ n.children, c.parent = some n.id := by
  have hoperand (c : Node) :
      ¬ (c.parent.any fun p => p != n.id) = true ↔ c.parent = none ∨ c.parent = some n.id := by
    cases c.parent <;> simp
  simp only [defect?, operandDefect?, childDefect?, Option.or_eq_none_iff, Option.map_eq_none_iff,
    List.find?_eq_none, hoperand]
  simp

/-- A folded tree lacks nothing if the tree lacks nothing. -/
theorem flawless_fold (levels : Nat) {n : Node} (h : n.Flawless) : (n.fold levels).Flawless := by
  induction levels generalizing n with
  | zero => exact h
  | succ levels ih =>
    obtain ⟨hdefect, hchildren⟩ := flawless_iff.1 h
    obtain ⟨hpart, hoperands, hgeneric⟩ := defect?_eq_none_iff.1 hdefect
    refine flawless_iff.2 ⟨defect?_eq_none_iff.2 ?_, fun c hc => ?_⟩
    · have hgeneric : ∀ c ∈ n.children.map (fold levels), c.parent = some n.id := by
        refine List.forall_mem_map.2 fun c hc => ?_
        rw [(keeps_fold levels c).parent]
        exact hgeneric c hc
      rcases fold_succ_cases levels n with ⟨-, h⟩ | ⟨l, h⟩
      · rw [h, partDefect?_descend]
        refine ⟨hpart, ?_, hgeneric⟩
        rw [descend, Kind.operands_map]
        refine List.forall_mem_map.2 fun c hc => ?_
        rw [(keeps_fold levels c).parent]
        exact hoperands c hc
      · rw [h]
        exact ⟨rfl, List.forall_mem_nil _, hgeneric⟩
    · obtain ⟨cs, hcs, hnodes⟩ := exists_childNodes_fold levels n
      rw [hnodes] at hc
      obtain ⟨d, hd, rfl⟩ := List.mem_map.1 hc
      exact ih (hchildren d (hcs.subset hd))

end Checks

/-! ## Folding in place -/

section Places

/-- What becomes of a tree that is folded in its place. A tree that is refused stays as it is. -/
def folded (n : Node) : Node :=
  match n.foldConstants with
  | .ok (m, _) => m
  | .error _ => n

theorem foldConstants_of_lt {n : Node} (h : maxTreeDepth < n.depth) :
    n.foldConstants = .error (.tooDeep "optimizer" maxTreeDepth) :=
  if_pos h

theorem foldConstants_of_le {n : Node} (h : n.depth ≤ maxTreeDepth) :
    n.foldConstants = .ok (n.fold maxTreeDepth, (n.foldLevels maxTreeDepth).2) :=
  if_neg (Nat.not_lt.2 h)

/-- A tree that is folded in its place is folded down to some level, or not at all. -/
theorem exists_folded_eq (n : Node) : ∃ levels, n.folded = n.fold levels := by
  rw [folded]
  by_cases h : n.depth ≤ maxTreeDepth
  · exact ⟨maxTreeDepth, by rw [foldConstants_of_le h]⟩
  · exact ⟨0, by rw [foldConstants_of_lt (Nat.not_le.1 h), fold_zero]⟩

end Places

end Node

end Rulebook
