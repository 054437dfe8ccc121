import Rulebook.Node

/-!
# Checking a tree

## Main definitions

* `Node.missingPart?`: the first part that a node lacks for its variant
* `Node.check`: a tree is no deeper than it may be, its nodes have what their variants need, and
  children name their owners as parents
-/

namespace Rulebook

namespace Node

/-- What is wrong with a node's own parts, if anything. -/
def partDefect? (n : Node) : Option Defect :=
  let missing (part : String) : Option Defect := some (.missing n.kind.name n.id part)
  match n.kind with
  | .decision none _ _ => missing "condition"
  | .consequence c =>
    if c.action.isEmpty then missing "action"
    else if !c.weight.isFinite then some (.weight n.id)
    else if c.kind = .assign ∧ n.children.length ≠ 1 then missing "assigned value"
    else none
  | .rule head body =>
    if head.name.isEmpty then missing "name"
    else if body.isNone then missing "body"
    else none
  | .logic _ none _ => missing "left operand"
  | .logic .not (some _) (some _) => some (.secondOperand n.id)
  | .logic .not (some _) none => none
  | .logic _ (some _) none => missing "right operand"
  | .comparison _ left right => if left.isNone || right.isNone then missing "operand" else none
  | .arithmetic op left right =>
    if left.isNone || (op != .neg && right.isNone) then missing "operand" else none
  | .chain _ first second => if first.isNone || second.isNone then missing "operand" else none
  | .identifier name | .ruleCall name => if name.isEmpty then missing "name" else none
  | _ => none

/-- The first operand that names another parent. An operand may name none. -/
def operandDefect? (n : Node) : Option Defect :=
  (n.kind.operands.find? fun c => c.parent.any (· != n.id)).map fun c =>
    .staleParent c.kind.name c.id

/-- The first generic child that does not name its owner. -/
def childDefect? (n : Node) : Option Defect :=
  (n.children.find? fun c => c.parent != some n.id).map fun c =>
    .unlinked c.kind.name c.id n.id

/-- What is wrong with a node and its links to its children, if anything. -/
def defect? (n : Node) : Option Defect :=
  n.partDefect?.or (n.operandDefect?.or n.childDefect?)

/-- Checks a tree of at most the given number of levels; each node is checked before the nodes
below it. -/
def checkLevels : Nat → Node → Except Error Unit
  | 0, _ => .error (.invalid (.tooDeep maxTreeDepth))
  | levels + 1, n =>
    match n.defect? with
    | some d => .error (.invalid d)
    | none => n.childNodes.forM (checkLevels levels)

/-- Checks a tree. -/
def check (n : Node) : Except Error Unit :=
  n.checkLevels maxTreeDepth

end Node

end Rulebook
