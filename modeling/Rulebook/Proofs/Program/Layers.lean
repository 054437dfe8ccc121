import Rulebook.Program.Expr

/-!
# The grammar of expressions, level by level

The grammar as it is written down: one production for each level, in terms of the production of
the next level. Operators of one level stand in a row and are joined from the left, except that
decisions in operator form hold another one on their right. Nothing is said of strengths here, nor
of limits on the depth of what is read.

## Main definitions

* `Parse.Layer.factor` to `Parse.Layer.chain`: one production for each level
* `Parse.Layer.lowest`: the production of the lowest level that is strong enough
* `Parse.layered`: expressions by levels
-/

namespace Rulebook

namespace Parse

namespace Layer

/-! ## Operators -/

section Operators

/-- How two operands become a node. -/
abbrev Build := Node → Node → Fresh Node

/-- The operators of products. -/
def factor? : TokenKind → Option Build
  | .star => some fun l r => Node.arithmetic .mul l (some r)
  | .slash => some fun l r => Node.arithmetic .div l (some r)
  | .percent => some fun l r => Node.arithmetic .mod l (some r)
  | _ => none

/-- The operators of sums. -/
def term? : TokenKind → Option Build
  | .plus => some fun l r => Node.arithmetic .add l (some r)
  | .minus => some fun l r => Node.arithmetic .sub l (some r)
  | _ => none

/-- The operators that compare by order. -/
def comparison? : TokenKind → Option Build
  | .lt => some (Node.comparison .lt)
  | .ltEq => some (Node.comparison .le)
  | .gt => some (Node.comparison .gt)
  | .gtEq => some (Node.comparison .ge)
  | _ => none

/-- Equality and its opposite. -/
def equality? : TokenKind → Option Build
  | .eqEq => some (Node.comparison .eq)
  | .bangEq => some (Node.comparison .ne)
  | _ => none

/-- The operator of conjunctions. -/
def conjunction? : TokenKind → Option Build
  | .and => some (Node.logic .and)
  | _ => none

/-- The operator of disjunctions. -/
def disjunction? : TokenKind → Option Build
  | .or => some (Node.logic .or)
  | _ => none

/-- The operators of chains. -/
def chain? : TokenKind → Option ChainOrder
  | .chain => some .sequential
  | .arrow => some .parallel
  | _ => none

end Operators

/-! ## Productions -/

section Rows

variable (op? : TokenKind → Option Build) (next : Parse Node)

/-- The rest of a row of operands and operators, joined from the left; `fuel` bounds its length. -/
def row : Nat → Node → Parse Node
  | 0, left => return left
  | fuel + 1, left => do
    match op? (← current).kind with
    | none => return left
    | some build =>
      let _ ← advance
      let right ← next
      let n ← make (build left right) (left.span.merge right.span) left.line
      row fuel n

/-- A row of operands. -/
def leftRow : Parse Node := do
  let left ← next
  row op? next (← get).remaining left

end Rows

section Levels

variable (settings : ParseSettings) (operand : OperandParser) (context : ReadContext)

/-- `a * b`, `a / b` and `a % b` -/
def factor : Parse Node :=
  leftRow factor? (primary settings operand context)

/-- `a + b` and `a - b` -/
def term : Parse Node :=
  leftRow term? (factor settings operand context)

/-- `a < b`, `a <= b`, `a > b` and `a >= b` -/
def comparison : Parse Node :=
  leftRow comparison? (term settings operand context)

/-- `a == b` and `a != b` -/
def equality : Parse Node :=
  leftRow equality? (comparison settings operand context)

/-- `a && b` -/
def conjunction : Parse Node :=
  leftRow conjunction? (equality settings operand context)

/-- `a || b` -/
def disjunction : Parse Node :=
  leftRow disjunction? (conjunction settings operand context)

/-- The rest of a decision in operator form, behind its condition. -/
def ternaryRest (condition : Node) : Parse Node := do
  match (← current).kind with
  | .question =>
    let _ ← advance
    let yes ← consequence settings operand
    let _ ← expect .colon "':' in conditional expression"
    let no ← toConsequence settings (← operand Strength.ternary .consequence)
    make (Node.decision condition (some yes) (some no)) (condition.span.merge no.span)
      condition.line
  | .elvis | .fatArrow =>
    let _ ← advance
    let body ← toConsequence settings (← operand Strength.ternary .consequence)
    make (Node.decision condition (some body) none) (condition.span.merge body.span)
      condition.line
  | _ => return condition

/-- `condition ? yes : no`, `condition ?: yes` and `condition => yes` -/
def ternary : Parse Node := do
  ternaryRest settings operand (← disjunction settings operand context)

/-- The rest of a chain, behind its first part; `fuel` bounds its length. -/
def chainRow : Nat → Node → Parse Node
  | 0, left => return left
  | fuel + 1, left => do
    match chain? (← current).kind with
    | none => return left
    | some order =>
      let _ ← advance
      let right ← toConsequence settings (← ternary settings operand .consequence)
      let first ← chainHead settings left context
      let n ← make (Node.chain order first right) (first.span.merge right.span) left.line
      chainRow fuel n

/-- `a >> b` and `a -> b` -/
def chain : Parse Node := do
  let first ← ternary settings operand context
  chainRow settings operand context (← get).remaining first

/-- The production of the lowest level that is at least as strong as asked. -/
def lowest (strength : Nat) : Parse Node :=
  if strength ≤ Strength.chain then chain settings operand context
  else if strength ≤ Strength.ternary then ternary settings operand context
  else if strength ≤ Strength.or then disjunction settings operand context
  else if strength ≤ Strength.and then conjunction settings operand context
  else if strength ≤ Strength.equality then equality settings operand context
  else if strength ≤ Strength.comparison then comparison settings operand context
  else if strength ≤ Strength.term then term settings operand context
  else if strength ≤ Strength.factor then factor settings operand context
  else primary settings operand context

end Levels

end Layer

/-- An expression by levels. `fuel` bounds how deeply expressions stand in each other. -/
def layers (settings : ParseSettings) : Nat → OperandParser
  | 0, _, _ => failHere "expected expression"
  | fuel + 1, strength, context =>
    Layer.lowest settings (layers settings fuel) context strength

/-- An expression by levels. Each expression within another stands behind at least one of its
tokens, so that no source holds more of them in each other than it has tokens. -/
def layered (settings : ParseSettings) : OperandParser := fun strength context => do
  layers settings (← get).remaining strength context

end Parse

end Rulebook
