import Rulebook.Node.Walk

/-!
# Folding constants

Comparisons, logic and arithmetic on constants are replaced by their values, from the leaves up.
A node keeps its identity, place and generic children. What would be a fault in an evaluation is
left for the evaluation to report.

## Main definitions

* `Node.constant?`: the value of a node on constant operands
* `Node.foldConstants`: the folded tree and the number of nodes replaced
-/

namespace Rulebook

namespace Node

/-- The value of an operand that is a constant. -/
def literalValue? (operand : Option Node) : Option Value :=
  match operand with
  | some n =>
    match n.kind with
    | .literal l => some l.value
    | _ => none
  | none => none

/-- The value of a comparison, logic or arithmetic node, if its operands determine it and it is
no fault. A first operand that decides a logic node makes the second irrelevant. -/
def constant? (n : Node) : Option Value :=
  match n.kind with
  | .comparison op left right => do
    let left ← literalValue? left
    let right ← literalValue? right
    (op.apply left right).map .bool
  | .logic op left right => do
    let left ← literalValue? left
    match op with
    | .not => some (.bool (!left.isTruthy))
    | .and =>
      if left.isTruthy then (literalValue? right).map fun right => .bool right.isTruthy
      else some (.bool false)
    | .or =>
      if left.isTruthy then some (.bool true)
      else (literalValue? right).map fun right => .bool right.isTruthy
  | .arithmetic op left right => do
    let left ← literalValue? left
    match right with
    | none => (op.apply left none).toOption
    | some right => do
      let right ← literalValue? (some right)
      (op.apply left (some right)).toOption
  | _ => none

/-- Replaces a node by its value, if it has a constant one; the second component counts. -/
def foldHere (n : Node) : Node × Nat :=
  match n.constant?.bind Literal.ofValue? with
  | some l => ({ n with kind := .literal l }, 1)
  | none => (n, 0)

/-- Folds the nodes of a row one after the other, and counts. -/
def foldEach (fold : Node → Node × Nat) : List Node → List Node × Nat
  | [] => ([], 0)
  | n :: ns =>
    let (n, k) := fold n
    let (ns, l) := foldEach fold ns
    (n :: ns, k + l)

/-- Folds a tree of at most the given number of levels, children first. -/
def foldLevels : Nat → Node → Node × Nat
  | 0, n => (n, 0)
  | levels + 1, n =>
    let (operands, k) := foldEach (foldLevels levels) n.kind.operands
    let (children, l) := foldEach (foldLevels levels) n.children
    let (n, m) := { n with kind := (n.kind.refill operands).1, children }.foldHere
    (n, k + l + m)

/-- Folds the constants of a tree and counts the nodes replaced. Trees that are too deep are
refused. -/
def foldConstants (n : Node) : Except Error (Node × Nat) :=
  if maxTreeDepth < n.depth then .error (.tooDeep "optimizer" maxTreeDepth)
  else .ok (n.foldLevels maxTreeDepth)

end Node

end Rulebook
