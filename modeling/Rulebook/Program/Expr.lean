import Rulebook.Program.Supply
import Rulebook.Strength

/-!
# Parsing expressions

Operators are read in a loop that goes on as long as they bind tightly enough, so that one table
of strengths fixes how they group. Decisions and consequences are expressions too; what a name
means depends on where it stands.

## Main definitions

* `Joint`: an operator between two expressions, with its strength and its grouping
* `Parse.toConsequence`: a name or text where a consequence is expected
* `Parse.primary`: an expression without operators behind it
* `Parse.operation`: the rest of an operation, behind its first operand
* `Parse.expr`: an expression whose operators bind at least as tightly as asked
-/

namespace Rulebook

/-- An operator between two expressions. -/
inductive Joint where
  | chain (order : ChainOrder)
  /-- `condition ? yes : no` -/
  | choice
  /-- `condition ?: yes` and `condition => yes` -/
  | arm
  | logic (op : LogicOp)
  | comparison (op : CompareOp)
  | arithmetic (op : ArithOp)
  deriving DecidableEq

namespace Joint

/-- The operator that a token is. -/
def ofToken? : TokenKind → Option Joint
  | .chain => some (chain .sequential)
  | .arrow => some (chain .parallel)
  | .question => some choice
  | .elvis | .fatArrow => some arm
  | .or => some (logic .or)
  | .and => some (logic .and)
  | .eqEq => some (comparison .eq)
  | .bangEq => some (comparison .ne)
  | .lt => some (comparison .lt)
  | .ltEq => some (comparison .le)
  | .gt => some (comparison .gt)
  | .gtEq => some (comparison .ge)
  | .plus => some (arithmetic .add)
  | .minus => some (arithmetic .sub)
  | .star => some (arithmetic .mul)
  | .slash => some (arithmetic .div)
  | .percent => some (arithmetic .mod)
  | _ => none

/-- How tightly an operator binds. -/
def strength : Joint → Nat
  | chain _ => Strength.chain
  | choice | arm => Strength.ternary
  | logic op => op.strength
  | comparison op => op.strength
  | arithmetic op => op.strength

/-- How tightly the operators of the second operand bind at least. Decisions group to the right,
all others to the left. -/
def rightStrength : Joint → Nat
  | choice | arm => Strength.ternary
  | j => j.strength + 1

end Joint

namespace Parse

variable {τ : Type} (settings : ParseSettings)

/-! ## Consequences -/

section Consequences

/-- The verdict that a name stands for, in golf mode. -/
def golfVerdict? (name : String) : Option Verdict :=
  if settings.golf then Verdict.ofLetter? name else none

/-- The consequence that a node stands for where one is expected: a name or a text is an action
of the host's, a golf letter a verdict. Other nodes stay what they are. -/
def toConsequence (n : Node) : ParseFrom τ Node :=
  match n.kind with
  | .identifier name =>
    match golfVerdict? settings name with
    | some v => make (Node.consequence v.name (.verdict v)) n.span n.line
    | none => make (Node.consequence name .custom) n.span n.line
  | .literal (.string action) => make (Node.consequence action .custom) n.span n.line
  | _ => return n

/-- The first part of a chain. Where no consequence is expected a plain name stays a variable, so
that the chain can hang on it. -/
def chainHead (n : Node) (context : ReadContext) : ParseFrom τ Node :=
  match n.kind with
  | .identifier name =>
    if (golfVerdict? settings name).isNone && context != .consequence then return n
    else toConsequence settings n
  | _ => toConsequence settings n

variable [TokenSource τ]

/-- A verdict, or a weighted one such as `win(0.5)`, behind its keyword. -/
def verdict (v : Verdict) (span : Span) (line : Nat) : ParseFrom τ Node := do
  if ← accept .lparen then
    match (← current).kind with
    | .number weight =>
      let _ ← advance
      let close ← expect .rparen "')' after weight"
      make (Node.make (.consequence { action := v.name, kind := .verdict v, weight }))
        (span.merge close.span) line
    | _ => failHere "expected numeric weight"
  else
    make (Node.consequence v.name (.verdict v)) span line

end Consequences

/-! ## Expressions without operators behind them -/

section Primary

/-- Parses an operand whose operators bind at least as tightly as the given strength. -/
abbrev OperandParser (τ : Type := List Token) := Nat → ReadContext → ParseFrom τ Node

variable (operand : OperandParser τ)

/-- A consequence. -/
def consequence : ParseFrom τ Node := do
  toConsequence settings (← operand 0 .consequence)

variable [TokenSource τ]

/-- A variable, a call `name()` or an assignment `name = value`. -/
def named (name : String) (span : Span) (line : Nat) : ParseFrom τ Node := do
  match ← nextKind with
  | .lparen =>
    -- The name and the parenthesis.
    let _ ← advance
    let _ ← advance
    let close ← expect .rparen "')' to close rule call"
    make (Node.ruleCall name) (span.merge close.span) line
  | .assign =>
    -- The name and the sign.
    let _ ← advance
    let _ ← advance
    let value ← operand Strength.ternary .condition
    make (Node.assignment name value) (span.merge value.span) line
  | _ =>
    let _ ← advance
    make (Node.identifier name) span line

/-- The rest of a decision, behind `then`. -/
def decisionTail (condition : Node) (start : Token) : ParseFrom τ Node := do
  let yes ← consequence settings operand
  let no ←
    if ← accept .kwElse then
      let no ← consequence settings operand
      pure (some no)
    else pure none
  let close ← expect .kwEnd "'end' to close decision"
  make (Node.decision condition (some yes) no) (start.span.merge close.span) start.line

/-- `if condition then consequence else consequence end` -/
def ifDecision : ParseFrom τ Node := do
  let start ← advance
  let condition ← operand 0 .condition
  let _ ← expect .kwThen "'then' after condition"
  decisionTail settings operand condition start

/-- `when condition do consequence`. The condition binds tighter than `=>`, which may stand for
`do`. -/
def whenDecision : ParseFrom τ Node := do
  let start ← advance
  let condition ← operand Strength.or .condition
  if (← accept .kwDo) then pure ()
  else if (← accept .fatArrow) then pure ()
  else failHere "expected 'do' or '=>' after when-condition"
  let body ← consequence settings operand
  make (Node.decision condition (some body) none) (start.span.merge body.span) start.line

/-- The operands of a quantifier, separated by commas; `fuel` bounds their number. -/
def quantified : Nat → List Node → ParseFrom τ (List Node)
  | 0, done => return done.reverse
  | fuel + 1, done => do
    let n ← operand 0 .condition
    if ← accept .comma then quantified fuel (n :: done)
    else return (n :: done).reverse

/-- The nodes of a row joined from the left by a logic operator. -/
def joinAll (op : LogicOp) (left : Node) : List Node → ParseFrom τ Node
  | [] => return left
  | right :: rest => do
    let n ← make (Node.logic op left right) {} 0
    joinAll op n rest

/-- `any(a, b, …)` joins its operands by `||`, `all(a, b, …)` by `&&`. Without operands they are
false and true. -/
def quantifier (op : LogicOp) : ParseFrom τ Node := do
  let start ← advance
  let _ ← expect .lparen "'(' after quantifier"
  let operands ← if ← isAt .rparen then pure [] else quantified operand (← get).remaining []
  let close ← expect .rparen "')' to close quantifier"
  let tallest := (operands.map Node.depth).foldl max 0
  -- Joined from the left, each operand after the first adds a level above the tallest one.
  checkHeight (tallest + (operands.length - 1))
  let span := start.span.merge close.span
  match operands with
  | [] => make (Node.literal (.bool (op == .and))) span start.line
  | first :: rest =>
    let n ← joinAll op first rest
    return n.withSpan span start.line

/-- A constant, behind its token. -/
def constant (l : Literal) (t : Token) : ParseFrom τ Node := do
  let _ ← advance
  make (Node.literal l) t.span t.line

/-- An expression without operators behind it. -/
def primary (context : ReadContext) : ParseFrom τ Node := do
  let t := (← current).inContext settings.golf context
  match t.kind with
  | .number x => constant (.number x) t
  | .string s => constant (.string s) t
  | .kwTrue | .underscore => constant (.bool true) t
  | .kwFalse => constant (.bool false) t
  | .kwNull => constant .null t
  | .identifier name => named operand name t.span t.line
  | .verdict v =>
    let _ ← advance
    verdict v t.span t.line
  | .bang =>
    let _ ← advance
    let n ← operand Strength.unary context
    make (Node.not n) (t.span.merge n.span) t.line
  | .minus =>
    let _ ← advance
    let n ← operand Strength.unary context
    make (Node.arithmetic .neg n none) (t.span.merge n.span) t.line
  | .lparen =>
    let _ ← advance
    let n ← operand 0 context
    let _ ← expect .rparen "')' after expression"
    return n
  | .kwAny => quantifier operand .or
  | .kwAll => quantifier operand .and
  | .kwIf => ifDecision settings operand
  | .kwWhen => whenDecision settings operand
  | kind => failHere ("expected expression, found '" ++ kind.text ++ "'")

end Primary

/-! ## Operations -/

section Operations

variable [TokenSource τ] (operand : OperandParser τ)

/-- The rest of an operation, behind its first operand; the operator is the current token. -/
def operation (joint : Joint) (left : Node) (context : ReadContext) : ParseFrom τ Node := do
  let _ ← advance
  match joint with
  | .chain order =>
    let right ← toConsequence settings (← operand joint.rightStrength .consequence)
    let first ← chainHead settings left context
    make (Node.chain order first right) (first.span.merge right.span) left.line
  | .choice =>
    let yes ← consequence settings operand
    let _ ← expect .colon "':' in conditional expression"
    let no ← toConsequence settings (← operand joint.rightStrength .consequence)
    make (Node.decision left (some yes) (some no)) (left.span.merge no.span) left.line
  | .arm =>
    let body ← toConsequence settings (← operand joint.rightStrength .consequence)
    make (Node.decision left (some body) none) (left.span.merge body.span) left.line
  | .logic op =>
    let right ← operand joint.rightStrength context
    make (Node.logic op left right) (left.span.merge right.span) left.line
  | .comparison op =>
    let right ← operand joint.rightStrength context
    make (Node.comparison op left right) (left.span.merge right.span) left.line
  | .arithmetic op =>
    let right ← operand joint.rightStrength context
    make (Node.arithmetic op left (some right)) (left.span.merge right.span) left.line

/-- The height of an operation whose first operand has a known height. -/
def stackedHeight (n : Node) (left : Nat) : Nat :=
  1 + max left (((n.childNodes.drop 1).map Node.depth).foldl max 0)

/-- Reads operations as long as operators bind tightly enough; `fuel` bounds their number. -/
def operations (strength : Nat) (context : ReadContext) : Nat → Node → Nat → ParseFrom τ Node
  | 0, left, _ => return left
  | fuel + 1, left, height => do
    match Joint.ofToken? (← current).kind with
    | none => return left
    | some joint =>
      if joint.strength < strength then return left
      let n ← operation settings operand joint left context
      -- The height of the left part is known, so that long rows are not measured again and again.
      let height := stackedHeight n height
      checkHeight height
      operations strength context fuel n height

/-- An expression, given how its operands are parsed. -/
def exprWith (strength : Nat) (context : ReadContext) : ParseFrom τ Node := do
  let left ← primary settings operand context
  let height := left.depth
  checkHeight height
  operations settings operand strength context (← get).remaining left height

end Operations

/-- An expression whose operators bind at least as tightly as the given strength. `levels` bounds
the productions that may still be nested. -/
def expr [TokenSource τ] : Nat → OperandParser τ
  | 0, _, _ => throw (.tooDeep "parser" settings.maxDepth)
  | levels + 1, strength, context =>
    nested settings (exprWith settings (expr levels) strength context)

end Parse

end Rulebook
