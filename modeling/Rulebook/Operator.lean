import Rulebook.Number.Remainder
import Rulebook.Value

/-!
# Operators

## Main definitions

* `LogicOp`, `CompareOp`, `ArithOp`, `ChainOrder`: the operators of the language, with symbols
* `CompareOp.apply`: comparison of two values of one family
* `ArithOp.apply`: arithmetic on one or two values
-/

namespace Rulebook

/-- Conjunction, disjunction and negation. -/
inductive LogicOp where
  | and
  | or
  | not
  deriving DecidableEq

/-- The six comparisons. -/
inductive CompareOp where
  | eq
  | ne
  | lt
  | le
  | gt
  | ge
  deriving DecidableEq

/-- The binary operations on numbers, and the sign change. -/
inductive ArithOp where
  | add
  | sub
  | mul
  | div
  | mod
  | neg
  deriving DecidableEq

/-- How a chain treats its parts: one after the other, or side by side. -/
inductive ChainOrder where
  | sequential
  | parallel
  deriving DecidableEq

/-- How a logic operator is written. -/
def LogicOp.symbol : LogicOp → String
  | and => "&&"
  | or => "||"
  | not => "!"

/-- How a comparison is written. -/
def CompareOp.symbol : CompareOp → String
  | eq => "=="
  | ne => "!="
  | lt => "<"
  | le => "<="
  | gt => ">"
  | ge => ">="

/-- How an arithmetic operator is written. -/
def ArithOp.symbol : ArithOp → String
  | add => "+"
  | sub | neg => "-"
  | mul => "*"
  | div => "/"
  | mod => "%"

/-- How a chain is written. -/
def ChainOrder.symbol : ChainOrder → String
  | sequential => ">>"
  | parallel => "->"

/-- The name of an order of chaining. -/
def ChainOrder.name : ChainOrder → String
  | sequential => "Sequential"
  | parallel => "Parallel"

/-- Whether a comparison asks for equality or its opposite. -/
def CompareOp.isEquality : CompareOp → Bool
  | eq | ne => true
  | _ => false

/-! ## Comparison -/

/-- The order of two doubles; NaN has none. -/
def compareNumbers (x y : Float) : Option Ordering :=
  if x < y then some .lt
  else if x == y then some .eq
  else if y < x then some .gt
  else none

/-- The order of two texts, by code points. -/
def compareTexts (s t : String) : Ordering :=
  if s < t then .lt else if s = t then .eq else .gt

namespace CompareOp

/-- Whether operands in this order satisfy the comparison. -/
def accepts : CompareOp → Ordering → Bool
  | eq, o => o == .eq
  | ne, o => o != .eq
  | lt, o => o == .lt
  | le, o => o != .gt
  | gt, o => o == .gt
  | ge, o => o != .lt

/-- Compares two numbers, two texts, or, for equality, two booleans. Operands without an order
are unequal and nothing else; operands of other types cannot be compared. -/
def apply (op : CompareOp) : Value → Value → Option Bool
  | .number x, .number y =>
    match compareNumbers x y with
    | some o => some (op.accepts o)
    | none => some (op == ne)
  | .string s, .string t => some (op.accepts (compareTexts s t))
  | .bool a, .bool b =>
    if op.isEquality then some (op.accepts (if a == b then .eq else .lt)) else none
  | _, _ => none

end CompareOp

/-! ## Arithmetic -/

/-- The fault of an operator whose operands have the wrong types. -/
def operandFault (symbol : String) (left right : Value) : Fault :=
  ⟨.type, "cannot apply '" ++ symbol ++ "' to " ++ left.typeName ++ " and " ++ right.typeName⟩

namespace ArithOp

/-- The result of an operator on two numbers. Dividing by zero, or taking a remainder by it, is a
fault. -/
def onNumbers (op : ArithOp) (x y : Float) : Except Fault Value :=
  match op with
  | add => .ok (.number (x + y))
  | sub => .ok (.number (x - y))
  | mul => .ok (.number (x * y))
  | div => if y == 0.0 then .error byZero else .ok (.number (x / y))
  | mod => if y == 0.0 then .error byZero else .ok (.number (remainder x y))
  | neg => .ok (.number (-x))
where
  byZero : Fault := ⟨.arithmetic, "'" ++ op.symbol ++ "' by zero"⟩

/-- The result of an operator. A sign change looks at its first operand only; two texts can be
added; everything else is for two numbers. -/
def apply (op : ArithOp) (left : Value) (right : Option Value) : Except Fault Value :=
  match op, left, right with
  | neg, .number x, _ => .ok (.number (-x))
  | neg, v, _ => .error ⟨.type, "cannot negate " ++ v.typeName⟩
  | add, .string s, some (.string t) => .ok (.string (s ++ t))
  | op, .number x, some (.number y) => op.onNumbers x y
  | op, v, some w => .error (operandFault op.symbol v w)
  | _, v, none => .error ⟨.type, "cannot negate " ++ v.typeName⟩

end ArithOp

end Rulebook
