import Rulebook.Node
import Rulebook.Strength
import Rulebook.Text.Quoted

/-!
# The text of a tree

Expressions are written with as few parentheses as their operators need: an operand is put in
parentheses when it binds looser than its place asks for.

## Main definitions

* `Node.strength`: how tightly the outermost operator of a node binds
* `Node.render`: the text of a tree, cut off below a number of levels
* `Node.text`, `Node.label`, `Node.brief`: the whole tree, its description, and the node alone
-/

namespace Rulebook

/-- The text of a constant in a rule source. -/
def Literal.text : Literal → String
  | null => "null"
  | bool b => toString b
  | number x => numberText x
  | string s => quoted s

namespace Node

/-- How tightly the outermost operator of a node binds. -/
def strength (n : Node) : Nat :=
  match n.kind with
  | .chain .. => Strength.chain
  | .logic op _ _ => op.strength
  | .comparison op _ _ => op.strength
  | .arithmetic op _ _ => op.strength
  | .consequence c => if c.kind = .assign then Strength.ternary else Strength.atom
  | _ => Strength.atom

/-- An operand in a place that asks for a strength. -/
def operandText (text : Node → String) (strength : Nat) : Option Node → String
  | some n => if n.strength < strength then "(" ++ text n ++ ")" else text n
  | none => "<missing>"

/-- Two operands around an operator that groups to the left. -/
def binaryText (text : Node → String) (strength : Nat) (symbol : String)
    (left right : Option Node) : String :=
  operandText text strength left ++ " " ++ symbol ++ " " ++ operandText text (strength + 1) right

/-- The text of a consequence; `value` is what an assignment stores. -/
def consequenceText (text : Node → String) (c : Consequence) (value : Option Node) : String :=
  match c.kind with
  | .assign => c.action ++ " = " ++ operandText text Strength.ternary value
  | .custom => quoted c.action
  | .verdict _ =>
    if c.weight != 1.0 then c.action ++ "(" ++ numberText c.weight ++ ")" else c.action

/-- The text of the body of a rule: each statement is followed by a blank. -/
def bodyText (text : Node → String) : Option Node → String
  | some body =>
    match body.kind with
    | .block => String.join (body.children.map fun n => text n ++ " ")
    | _ => text body ++ " "
  | none => ""

/-- The text of a node whose operands are written by `text`. -/
def renderWith (text : Node → String) (n : Node) : String :=
  match n.kind with
  | .decision condition yes no =>
    "if " ++ operandText text 0 condition ++
      ((yes.map fun n => " then " ++ text n).getD "") ++
      ((no.map fun n => " else " ++ text n).getD "") ++ " end"
  | .consequence c => consequenceText text c n.children.head?
  | .rule head body => "rule " ++ head.name ++ " \x7b " ++ bodyText text body ++ "\x7d"
  | .logic .not left _ => "!" ++ operandText text Strength.unary left
  | .logic op left right => binaryText text op.strength op.symbol left right
  | .comparison op left right => binaryText text op.strength op.symbol left right
  | .arithmetic .neg left _ => "-" ++ operandText text Strength.unary left
  | .arithmetic op left right => binaryText text op.strength op.symbol left right
  | .chain order first second => binaryText text Strength.chain order.symbol first second
  | .identifier name => name
  | .literal l => l.text
  | .block => "\n".intercalate (n.children.map text)
  | .ruleCall name => name ++ "()"
  | .extension tag => "<" ++ tag ++ ">"

/-- The text of a tree down to a number of levels; deeper nodes are written as dots. -/
def render : Nat → Node → String
  | 0, _ => "..."
  | levels + 1, n => n.renderWith (render levels)

/-- The text of a tree. -/
def text (n : Node) : String :=
  n.render maxTreeDepth

/-- The node in a few words, without its operands. -/
def brief (n : Node) : String :=
  match n.kind with
  | .decision .. => "if"
  | .consequence c =>
    if c.kind = .assign then "set " ++ c.action else c.kind.name ++ " " ++ c.action
  | .rule head _ => "rule " ++ head.name
  | .logic op _ _ => op.symbol
  | .comparison op _ _ => op.symbol
  | .arithmetic op _ _ => op.symbol
  | .chain order _ _ => order.symbol
  | .identifier name => name
  | .literal l => l.text
  | .block => "block of " ++ toString n.children.length
  | .ruleCall name => "call " ++ name
  | .extension tag => "extension " ++ tag

/-- The node for readers of an explanation: expressions in full, decisions with their
condition. -/
def label (n : Node) : String :=
  match n.kind with
  | .decision (some condition) _ _ => "if " ++ condition.text
  | .decision none _ _ => "if <missing>"
  | .logic .. | .comparison .. | .arithmetic .. | .chain .. => n.text
  | _ => n.brief

end Node

end Rulebook
