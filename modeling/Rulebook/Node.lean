import Rulebook.Operator

/-!
# Decision trees

A tree owns its nodes: operands, in the slots of its variant, and generic children, which hold the
statements of a block and the value of an assignment. Each node also names its parent. That link
is for messages and checks; it is never followed to walk a tree.

## Main definitions

* `Literal`, `Consequence`, `RuleHead`: what leaves and rules carry
* `Kind`: the variants of a node, with a slot for each operand
* `Node`: a node with its identity, place in the source, parent link and children
* `Node.childNodes`: operands, then generic children
* `Node.make` and the factories after it: new nodes, linked to their operands

## Main results

* `Node.totalSize_childNodes_lt`, `Node.sizeOf_lt_of_mem_childNodes`: children are smaller
* `Node.induction`: what passes from the children of a node to the node holds of all trees
-/

namespace Rulebook

/-- The deepest tree that checks, folds and parsers accept. -/
def maxTreeDepth : Nat := 1024

/-- A constant of a rule source. -/
inductive Literal where
  | null
  | bool (b : Bool)
  | number (x : Float)
  | string (s : String)

namespace Literal

/-- The value of a constant. -/
def value : Literal → Value
  | null => .null
  | bool b => .bool b
  | number x => .number x
  | string s => .string s

/-- The constant with a value, if it has one. -/
def ofValue? : Value → Option Literal
  | .null => some null
  | .bool b => some (bool b)
  | .number x => some (number x)
  | .string s => some (string s)
  | _ => none

/-- Equality of constants. Doubles are compared as numbers. -/
def same : Literal → Literal → Bool
  | null, null => true
  | bool a, bool b => a == b
  | number x, number y => x == y
  | string s, string t => s == t
  | _, _ => false

end Literal

/-- A leaf that acts. `executed` is set by evaluation. -/
structure Consequence where
  action : String
  kind : ConsequenceKind
  weight : Float := 1.0
  executed : Bool := false

/-- A rule without its body. `activations` is counted by evaluation. -/
structure RuleHead where
  name : String
  isActive : Bool := true
  activations : Nat := 0

/-- The variants of a node. A slot is empty when its operand is absent. -/
inductive Kind (α : Type) where
  /-- `if condition then yes else no end` -/
  | decision (condition yes no : Option α)
  /-- `win`, `"notify"`, or, with the value as generic child, `score = 10` -/
  | consequence (c : Consequence)
  /-- `rule name { body }` -/
  | rule (head : RuleHead) (body : Option α)
  | logic (op : LogicOp) (left right : Option α)
  | comparison (op : CompareOp) (left right : Option α)
  /-- A variable, which the host resolves. -/
  | identifier (name : String)
  | literal (l : Literal)
  /-- `first >> second` or `first -> second` -/
  | chain (order : ChainOrder) (first second : Option α)
  | arithmetic (op : ArithOp) (left right : Option α)
  /-- A sequence of statements, which are the generic children. -/
  | block
  /-- `name()`: run another rule of the tree. -/
  | ruleCall (name : String)
  /-- A node that only other tools understand. -/
  | extension (tag : String)

namespace Kind

variable {α β : Type}

/-- The name of a variant. -/
def name : Kind α → String
  | decision .. => "Decision"
  | consequence _ => "Consequence"
  | rule .. => "Rule"
  | logic .. => "LogicOp"
  | comparison .. => "Comparison"
  | identifier _ => "Identifier"
  | literal _ => "Literal"
  | chain .. => "Chain"
  | arithmetic .. => "Arithmetic"
  | block => "Block"
  | ruleCall _ => "RuleCall"
  | extension _ => "Extension"

/-- The slots of a variant, in the order of evaluation. -/
def slots : Kind α → List (Option α)
  | decision c y n => [c, y, n]
  | rule _ body => [body]
  | logic _ l r | comparison _ l r | arithmetic _ l r => [l, r]
  | chain _ f s => [f, s]
  | consequence _ | identifier _ | literal _ | block | ruleCall _ | extension _ => []

/-- The operands that are present, in the order of evaluation. -/
def operands (k : Kind α) : List α :=
  k.slots.filterMap id

/-- Replaces each slot. -/
def mapSlots (f : Option α → Option β) : Kind α → Kind β
  | decision c y n => decision (f c) (f y) (f n)
  | consequence c => consequence c
  | rule head body => rule head (f body)
  | logic op l r => logic op (f l) (f r)
  | comparison op l r => comparison op (f l) (f r)
  | identifier name => identifier name
  | literal l => literal l
  | chain order a b => chain order (f a) (f b)
  | arithmetic op l r => arithmetic op (f l) (f r)
  | block => block
  | ruleCall name => ruleCall name
  | extension tag => extension tag

/-- Replaces each operand. -/
def map (f : α → β) (k : Kind α) : Kind β :=
  k.mapSlots (Option.map f)

/-- Fills a slot that was present with the next of the given parts. -/
def takePart : Option α → List β → Option β × List β
  | some _, part :: parts => (some part, parts)
  | _, parts => (none, parts)

/-- Replaces the operands that are present by the given parts, in order; what is left of the
parts comes second. -/
def refill (k : Kind α) (parts : List β) : Kind β × List β :=
  match k with
  | decision c y n =>
    let (c, parts) := takePart c parts
    let (y, parts) := takePart y parts
    let (n, parts) := takePart n parts
    (decision c y n, parts)
  | rule head body =>
    let (body, parts) := takePart body parts
    (rule head body, parts)
  | logic op l r =>
    let (l, parts) := takePart l parts
    let (r, parts) := takePart r parts
    (logic op l r, parts)
  | comparison op l r =>
    let (l, parts) := takePart l parts
    let (r, parts) := takePart r parts
    (comparison op l r, parts)
  | chain order a b =>
    let (a, parts) := takePart a parts
    let (b, parts) := takePart b parts
    (chain order a b, parts)
  | arithmetic op l r =>
    let (l, parts) := takePart l parts
    let (r, parts) := takePart r parts
    (arithmetic op l r, parts)
  | consequence c => (consequence c, parts)
  | identifier name => (identifier name, parts)
  | literal l => (literal l, parts)
  | block => (block, parts)
  | ruleCall name => (ruleCall name, parts)
  | extension tag => (extension tag, parts)

/-- The rule that a node is, if it is one. -/
def rule? : Kind α → Option RuleHead
  | rule head _ => some head
  | _ => none

/-- The consequence that a node is, if it is one. -/
def consequence? : Kind α → Option Consequence
  | consequence c => some c
  | _ => none

end Kind

/-- A node of a decision tree. Nodes that were not read from a source have line `0`. -/
structure Node where
  id : NodeId
  kind : Kind Node
  span : Span
  line : Nat
  parent : Option NodeId
  children : List Node

namespace Node

instance : Inhabited Node := ⟨⟨default, .block, {}, 0, none, []⟩⟩

/-- Operands in the order of evaluation, then generic children. -/
def childNodes (n : Node) : List Node :=
  n.kind.operands ++ n.children

/-! ## Induction over trees -/

section Induction

/-- The sizes of nodes, added up. -/
noncomputable def totalSize : List Node → Nat
  | [] => 0
  | n :: ns => sizeOf n + totalSize ns

theorem totalSize_append (ms ns : List Node) :
    totalSize (ms ++ ns) = totalSize ms + totalSize ns := by
  induction ms with
  | nil => simp [totalSize]
  | cons m ms ih => simp only [List.cons_append, totalSize, ih]; omega

theorem totalSize_reverse (ns : List Node) : totalSize ns.reverse = totalSize ns := by
  induction ns with
  | nil => rfl
  | cons n ns ih => simp only [List.reverse_cons, totalSize_append, ih, totalSize]; omega

theorem totalSize_le (ns : List Node) : totalSize ns ≤ sizeOf ns := by
  induction ns with
  | nil => simp [totalSize]
  | cons n ns ih => simp only [totalSize, List.cons.sizeOf_spec]; omega

theorem totalSize_operands_lt (k : Kind Node) : totalSize k.operands < sizeOf k := by
  cases k with
  | decision c y n =>
    rcases c with _ | c <;> rcases y with _ | y <;> rcases n with _ | n <;>
      simp [Kind.operands, Kind.slots, totalSize] <;> omega
  | rule head body =>
    rcases body with _ | b
    · simp [Kind.operands, Kind.slots, totalSize]
    · simp [Kind.operands, Kind.slots, totalSize]; omega
  | logic op l r | comparison op l r | chain op l r | arithmetic op l r =>
    rcases l with _ | l <;> rcases r with _ | r <;>
      simp [Kind.operands, Kind.slots, totalSize] <;> omega
  | block => exact Nat.zero_lt_one
  | _ => exact Nat.lt_of_lt_of_le Nat.zero_lt_one (Nat.le_add_right 1 _)

/-- The children of a node are together smaller than the node. -/
theorem totalSize_childNodes_lt (n : Node) : totalSize n.childNodes < sizeOf n := by
  -- Operands are parts of the variant, generic children of their list.
  obtain ⟨id, kind, span, line, parent, children⟩ := n
  have hk := totalSize_operands_lt kind
  have hc := totalSize_le children
  simp only [childNodes, totalSize_append, Node.mk.sizeOf_spec]
  omega

theorem sizeOf_le_totalSize_of_mem {ns : List Node} {c : Node} (h : c ∈ ns) :
    sizeOf c ≤ totalSize ns := by
  induction h with
  | head ns => simp [totalSize]
  | tail n _ ih => simp only [totalSize]; omega

theorem sizeOf_lt_of_mem_childNodes {n c : Node} (h : c ∈ n.childNodes) : sizeOf c < sizeOf n :=
  Nat.lt_of_le_of_lt (sizeOf_le_totalSize_of_mem h) (totalSize_childNodes_lt n)

/-- **Induction over trees.** -/
theorem induction {P : Node → Prop} (step : ∀ n, (∀ c ∈ n.childNodes, P c) → P n) (n : Node) :
    P n :=
  step n fun c h =>
    have := sizeOf_lt_of_mem_childNodes h
    induction step c
termination_by sizeOf n

end Induction

/-! ## Making nodes -/

section Factories

/-- The node with another parent. -/
def withParent (parent : NodeId) (n : Node) : Node :=
  { n with parent := some parent }

/-- The node with a place in the source. -/
def withSpan (n : Node) (span : Span) (line : Nat) : Node :=
  { n with span, line }

/-- A node with the given identity, variant and generic children, to all of which it is the
parent. -/
def linked (id : NodeId) (kind : Kind Node) (children : List Node) : Node :=
  { id
    kind := kind.map (withParent id)
    span := {}
    line := 0
    parent := none
    children := children.map (withParent id) }

/-- A new node, the parent of its operands. -/
def make (kind : Kind Node) : Fresh Node := do
  return linked (← freshId) kind []

/-- A new node, the parent of its operands and its generic children. -/
def makeWith (kind : Kind Node) (children : List Node) : Fresh Node := do
  return linked (← freshId) kind children

/-- Appends a generic child. -/
def addChild (n child : Node) : Node :=
  { n with children := n.children ++ [child.withParent n.id] }

/-- A decision on a condition. -/
def decision (condition : Node) (yes no : Option Node) : Fresh Node :=
  make (.decision (some condition) yes no)

/-- A consequence of weight one. -/
def consequence (action : String) (kind : ConsequenceKind) : Fresh Node :=
  make (.consequence { action, kind })

/-- The assignment of a value to a variable. -/
def assignment (name : String) (value : Node) : Fresh Node :=
  makeWith (.consequence { action := name, kind := .assign }) [value]

/-- An active rule. -/
def rule (name : String) (body : Node) : Fresh Node :=
  make (.rule { name } (some body))

/-- A conjunction or disjunction. -/
def logic (op : LogicOp) (left right : Node) : Fresh Node :=
  make (.logic op (some left) (some right))

/-- A negation. -/
def not (operand : Node) : Fresh Node :=
  make (.logic .not (some operand) none)

/-- A comparison. -/
def comparison (op : CompareOp) (left right : Node) : Fresh Node :=
  make (.comparison op (some left) (some right))

/-- A variable. -/
def identifier (name : String) : Fresh Node :=
  make (.identifier name)

/-- A constant. -/
def literal (l : Literal) : Fresh Node :=
  make (.literal l)

/-- A chain of two parts. -/
def chain (order : ChainOrder) (first second : Node) : Fresh Node :=
  make (.chain order (some first) (some second))

/-- An arithmetic operation on one or two operands. -/
def arithmetic (op : ArithOp) (left : Node) (right : Option Node) : Fresh Node :=
  make (.arithmetic op (some left) right)

/-- A sequence of statements. -/
def block (statements : List Node) : Fresh Node :=
  makeWith .block statements

/-- A call of a rule. -/
def ruleCall (name : String) : Fresh Node :=
  make (.ruleCall name)

end Factories

end Node

end Rulebook
