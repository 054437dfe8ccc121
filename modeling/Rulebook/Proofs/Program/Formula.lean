import Rulebook.Node.Printer
import Rulebook.Program.Expr
import Rulebook.Proofs.Node.Same
import Rulebook.Token.Stream

/-!
# Formulas

The expressions whose text can be read back: names, calls, words for constants, signs and the
operators between two operands. A formula says which nodes a tree has, whatever their identities
and places, and which tokens it is written with: an operand stands in parentheses if it binds looser
than its place asks for.

## Main definitions

* `Identifier`, `Constant`, `Sign`, `BinaryOp`: what formulas are made of
* `Formula`: an expression that can be read back
* `Formula.tokens`: the kinds of the tokens that a formula is written with
* `Node.HasForm`: a tree is that of a formula

## Main results

* `Node.HasForm.alike`: trees of one formula are equal
* `Node.HasForm.depth_eq`, `Node.HasForm.strength_eq`: how deep they are, and how tightly they bind
-/

namespace Rulebook

/-! ## Parts of formulas -/

section Parts

/-- A name as sources have it: a text that is read as one token, which is that name. -/
structure Identifier where
  text : String
  isName : (tokenize {} text).1.map Token.kind = [.identifier text, .eof]

/-- A constant that is written as a word. -/
inductive Constant where
  | null
  | bool (b : Bool)

/-- An operator in front of its operand. -/
inductive Sign where
  | not
  | minus

/-- An operator between two operands. -/
inductive BinaryOp where
  | logic (op : LogicOp) (h : op ≠ .not)
  | comparison (op : CompareOp)
  | arithmetic (op : ArithOp) (h : op ≠ .neg)

namespace Constant

def literal : Constant → Literal
  | null => .null
  | bool b => .bool b

def token : Constant → TokenKind
  | null => .kwNull
  | bool true => .kwTrue
  | bool false => .kwFalse

end Constant

namespace Sign

def token : Sign → TokenKind
  | not => .bang
  | minus => .minus

def symbol : Sign → Char
  | not => '!'
  | minus => '-'

/-- The variant of a node with a sign. -/
def kind (operand : Node) : Sign → Kind Node
  | not => .logic .not (some operand) none
  | minus => .arithmetic .neg (some operand) none

end Sign

namespace BinaryOp

def joint : BinaryOp → Joint
  | logic op _ => .logic op
  | comparison op => .comparison op
  | arithmetic op _ => .arithmetic op

def token : BinaryOp → TokenKind
  | logic .or _ => .or
  | logic _ _ => .and
  | comparison .eq => .eqEq
  | comparison .ne => .bangEq
  | comparison .lt => .lt
  | comparison .le => .ltEq
  | comparison .gt => .gt
  | comparison .ge => .gtEq
  | arithmetic .add _ => .plus
  | arithmetic .mul _ => .star
  | arithmetic .div _ => .slash
  | arithmetic .mod _ => .percent
  | arithmetic _ _ => .minus

def symbol : BinaryOp → String
  | logic op _ => op.symbol
  | comparison op => op.symbol
  | arithmetic op _ => op.symbol

/-- The characters of the symbol. -/
def chars : BinaryOp → List Char
  | logic .or _ => ['|', '|']
  | logic _ _ => ['&', '&']
  | comparison .eq => ['=', '=']
  | comparison .ne => ['!', '=']
  | comparison .lt => ['<']
  | comparison .le => ['<', '=']
  | comparison .gt => ['>']
  | comparison .ge => ['>', '=']
  | arithmetic .add _ => ['+']
  | arithmetic .mul _ => ['*']
  | arithmetic .div _ => ['/']
  | arithmetic .mod _ => ['%']
  | arithmetic _ _ => ['-']

/-- How tightly the operator binds. -/
def strength (op : BinaryOp) : Nat :=
  op.joint.strength

/-- The variant of a node with two operands. -/
def kind (left right : Node) : BinaryOp → Kind Node
  | logic op _ => .logic op (some left) (some right)
  | comparison op => .comparison op (some left) (some right)
  | arithmetic op _ => .arithmetic op (some left) (some right)

theorem toList_symbol (op : BinaryOp) : op.symbol.toList = op.chars := by
  cases op with
  | logic op h =>
    cases op with
    | not => exact absurd rfl h
    | _ => exact String.toList_ofList
  | comparison op => cases op <;> exact String.toList_ofList
  | arithmetic op h => cases op <;> exact String.toList_ofList

/-- The operator is read from its token. -/
theorem ofToken?_token (op : BinaryOp) : Joint.ofToken? op.token = some op.joint := by
  cases op with
  | logic op h => cases op <;> first | rfl | exact absurd rfl h
  | comparison op => cases op <;> rfl
  | arithmetic op h => cases op <;> first | rfl | exact absurd rfl h

end BinaryOp

end Parts

/-! ## Formulas -/

/-- An expression that can be read back from its text. -/
inductive Formula where
  | identifier (name : Identifier)
  | ruleCall (name : Identifier)
  | constant (c : Constant)
  | signed (sign : Sign) (operand : Formula)
  | joined (op : BinaryOp) (left right : Formula)

namespace Formula

/-- How many levels of nodes there are. -/
def depth : Formula → Nat
  | identifier _ | ruleCall _ | constant _ => 1
  | signed _ f => 1 + f.depth
  | joined _ f g => 1 + max f.depth g.depth

theorem depth_pos (f : Formula) : 0 < f.depth := by
  cases f <;> rw [depth] <;> omega

/-- How tightly the outermost operator binds. -/
def strength : Formula → Nat
  | identifier _ | ruleCall _ | constant _ => Strength.atom
  | signed _ _ => Strength.unary
  | joined op _ _ => op.strength

/-- Tokens that stand in parentheses if they bind looser than their place asks for. -/
def enclosed (strength place : Nat) (kinds : List TokenKind) : List TokenKind :=
  if strength < place then .lparen :: kinds ++ [.rparen] else kinds

/-- The kinds of the tokens that a formula is written with. -/
def tokens : Formula → List TokenKind
  | identifier name => [.identifier name.text]
  | ruleCall name => [.identifier name.text, .lparen, .rparen]
  | constant c => [c.token]
  | signed sign f => sign.token :: enclosed f.strength Strength.unary f.tokens
  | joined op f g =>
    enclosed f.strength op.strength f.tokens ++
      op.token :: enclosed g.strength (op.strength + 1) g.tokens

/-- The tokens of an operand in a place that asks for a strength. -/
def tokensAt (f : Formula) (place : Nat) : List TokenKind :=
  enclosed f.strength place f.tokens

end Formula

/-! ## Trees of formulas -/

namespace Node

/-- A tree with the nodes that a formula says, without generic children. -/
def HasForm : Node → Formula → Prop
  | n, .identifier name => n.kind = .identifier name.text ∧ n.children = []
  | n, .ruleCall name => n.kind = .ruleCall name.text ∧ n.children = []
  | n, .constant c => n.kind = .literal c.literal ∧ n.children = []
  | n, .signed sign f => ∃ a, n.kind = sign.kind a ∧ n.children = [] ∧ a.HasForm f
  | n, .joined op f g =>
    ∃ a b, n.kind = op.kind a b ∧ n.children = [] ∧ a.HasForm f ∧ b.HasForm g

section Forms

variable {n m : Node} {f g : Formula}

/-- Identities and places do not count. -/
theorem HasForm.congr (h : n.HasForm f) (hkind : m.kind = n.kind)
    (hchildren : m.children = n.children) : m.HasForm f := by
  cases f <;> rw [HasForm, hkind, hchildren] <;> exact h

theorem HasForm.withParent (h : n.HasForm f) (id : NodeId) : (n.withParent id).HasForm f :=
  h.congr rfl rfl

theorem HasForm.withSpan (h : n.HasForm f) (span : Span) (line : Nat) :
    (n.withSpan span line).HasForm f :=
  h.congr rfl rfl

theorem HasForm.signed (sign : Sign) (h : n.HasForm f) (id : NodeId) :
    (linked id (sign.kind n) []).HasForm (.signed sign f) := by
  refine ⟨n.withParent id, ?_, rfl, h.withParent id⟩
  cases sign <;> rfl

theorem HasForm.joined (op : BinaryOp) (hn : n.HasForm f) (hm : m.HasForm g) (id : NodeId) :
    (linked id (op.kind n m) []).HasForm (.joined op f g) := by
  refine ⟨n.withParent id, m.withParent id, ?_, rfl, hn.withParent id, hm.withParent id⟩
  cases op <;> rfl

/-- Trees of a formula are as deep as the formula. -/
theorem HasForm.depth_eq (h : n.HasForm f) : n.depth = f.depth := by
  induction f generalizing n with
  | identifier name | ruleCall name | constant c =>
    obtain ⟨hkind, hchildren⟩ := h
    rw [Node.depth_eq, childNodes, hkind, hchildren]
    rfl
  | signed sign f ih =>
    obtain ⟨a, hkind, hchildren, ha⟩ := h
    rw [Node.depth_eq, childNodes, hkind, hchildren, Formula.depth, ← ih ha]
    cases sign <;> simp [Sign.kind, Kind.operands, Kind.slots, tallest]
  | joined op f g ihf ihg =>
    obtain ⟨a, b, hkind, hchildren, ha, hb⟩ := h
    rw [Node.depth_eq, childNodes, hkind, hchildren, Formula.depth, ← ihf ha, ← ihg hb]
    cases op <;> simp [BinaryOp.kind, Kind.operands, Kind.slots, tallest]

/-- Trees of a formula bind as tightly as the formula. -/
theorem HasForm.strength_eq (h : n.HasForm f) : n.strength = f.strength := by
  cases f with
  | identifier name | ruleCall name | constant c =>
    rw [strength, h.1]
    rfl
  | signed sign f =>
    obtain ⟨a, hkind, -⟩ := h
    rw [strength, hkind]
    cases sign <;> rfl
  | joined op f g =>
    obtain ⟨a, b, hkind, -⟩ := h
    rw [strength, hkind]
    cases op <;> rfl

/-- Trees of one formula are equal. -/
theorem HasForm.alike (hn : n.HasForm f) (hm : m.HasForm f) : n.Alike m := by
  have hchildren {n m : Node} (hn : n.children = []) (hm : m.children = []) :
      List.Forall₂ Alike n.children m.children := by
    rw [hn, hm]
    exact .nil
  induction f generalizing n m with
  | identifier name | ruleCall name =>
    refine alike_iff.2 ⟨?_, hchildren hn.2 hm.2⟩
    rw [hn.1, hm.1]
    exact ⟨by simp [Kind.samePayload], .nil⟩
  | constant c =>
    refine alike_iff.2 ⟨?_, hchildren hn.2 hm.2⟩
    rw [hn.1, hm.1]
    cases c with
    | null => exact ⟨rfl, .nil⟩
    | bool b => exact ⟨by simp [Kind.samePayload, Constant.literal, Literal.same], .nil⟩
  | signed sign f ih =>
    obtain ⟨a, hkind, hc, ha⟩ := hn
    obtain ⟨a', hkind', hc', ha'⟩ := hm
    refine alike_iff.2 ⟨?_, hchildren hc hc'⟩
    rw [hkind, hkind']
    cases sign <;> exact ⟨rfl, .cons (.some (ih ha ha')) (.cons .none .nil)⟩
  | joined op f g ihf ihg =>
    obtain ⟨a, b, hkind, hc, ha, hb⟩ := hn
    obtain ⟨a', b', hkind', hc', ha', hb'⟩ := hm
    refine alike_iff.2 ⟨?_, hchildren hc hc'⟩
    rw [hkind, hkind']
    have hslots : List.Forall₂ (Option.Rel Alike) [some a, some b] [some a', some b'] :=
      .cons (.some (ihf ha ha')) (.cons (.some (ihg hb hb')) .nil)
    cases op <;> exact ⟨by simp [BinaryOp.kind, Kind.samePayload], hslots⟩

end Forms

end Node

end Rulebook
