import Rulebook.Operator

/-!
# How tightly operators bind

## Main definitions

* `Strength`: the levels of the grammar of expressions, the loosest first
* `LogicOp.strength`, `CompareOp.strength`, `ArithOp.strength`: the level of each operator
-/

namespace Rulebook

namespace Strength

/-- Chains of consequences. -/
def chain : Nat := 2

/-- One-armed and two-armed decisions in operator form, and assignments. -/
def ternary : Nat := 3

/-- Disjunctions. -/
def or : Nat := 4

/-- Conjunctions. -/
def and : Nat := 5

/-- Equality and its opposite. -/
def equality : Nat := 6

/-- The other comparisons. -/
def comparison : Nat := 7

/-- Sums and differences. -/
def term : Nat := 8

/-- Products, quotients and remainders. -/
def factor : Nat := 9

/-- Negations and sign changes. -/
def unary : Nat := 10

/-- Expressions that no operator can take apart. -/
def atom : Nat := 11

end Strength

/-- The level of a logic operator. -/
def LogicOp.strength : LogicOp → Nat
  | or => Strength.or
  | and => Strength.and
  | not => Strength.unary

/-- The level of a comparison. -/
def CompareOp.strength (op : CompareOp) : Nat :=
  if op.isEquality then Strength.equality else Strength.comparison

/-- The level of an arithmetic operator. -/
def ArithOp.strength : ArithOp → Nat
  | add | sub => Strength.term
  | mul | div | mod => Strength.factor
  | neg => Strength.unary

end Rulebook
