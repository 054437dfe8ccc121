import Rulebook.Proofs.Node.Same
import Rulebook.Proofs.Program.Congruence
import Rulebook.Proofs.Token.Scan

/-!
# Parses that come to equal trees

Where two parses find tokens of the same kinds, the nodes that they make of them are equal, whatever
their identities and places are. A literal number is equal to itself if it comes from a source.

## Main definitions

* `Parse.Comparison.alike`: tokens of the same kinds, and trees that are equal

## Main results

* `Node.Formed.alike`: new nodes of equal operands are equal
-/

namespace Rulebook

/-! ## What nodes carry -/

namespace Kind

variable {α β : Type} {a : Kind α} {b : Kind β}

theorem identifier_iff_of_samePayload (h : a.samePayload b) (name : String) :
    a = .identifier name ↔ b = .identifier name := by
  constructor
  · rintro rfl
    cases b <;> simp_all [Kind.samePayload]
  · rintro rfl
    cases a <;> simp_all [Kind.samePayload]

theorem string_iff_of_samePayload (h : a.samePayload b) (s : String) :
    a = .literal (.string s) ↔ b = .literal (.string s) := by
  constructor
  · rintro rfl
    cases b with
    | literal l => cases l <;> simp_all [Kind.samePayload, Literal.same]
    | _ => simp [Kind.samePayload] at h
  · rintro rfl
    cases a with
    | literal l => cases l <;> simp_all [Kind.samePayload, Literal.same]
    | _ => simp [Kind.samePayload] at h

end Kind

/-! ## New nodes -/

namespace Node

theorem Formed.alike {N : Node → Node → Prop} {kind kind' : Kind Node} {cs cs' : List Node}
    (h : Formed TokenKind.IsProper N kind cs kind' cs') :
    kind.Alike N kind' ∧ List.Forall₂ N cs cs' := by
  have hunit : (1.0 : Float) == 1.0 := by decide +kernel
  cases h with
  | @literal l hnumber _ =>
    refine ⟨⟨?_, .nil⟩, .nil⟩
    cases l with
    | number x => exact (hnumber x rfl).beq_self x rfl
    | _ => simp [Kind.samePayload, Literal.same]
  | identifier _ | ruleCall _ => exact ⟨⟨by simp [Kind.samePayload], .nil⟩, .nil⟩
  | assignment _ hvalue =>
    exact ⟨⟨by simp [Kind.samePayload, Consequence.same, hunit], .nil⟩, .cons hvalue .nil⟩
  | verdict v | custom _ _ =>
    exact ⟨⟨by simp [Kind.samePayload, Consequence.same, hunit], .nil⟩, .nil⟩
  | weighted v h =>
    exact ⟨⟨by simp [Kind.samePayload, Consequence.same, h.beq_self _ rfl], .nil⟩, .nil⟩
  | decision h hyes hno =>
    exact ⟨⟨rfl, .cons (.some h) (.cons (.some hyes) (.cons hno .nil))⟩, .nil⟩
  | logic _ h hright | comparison _ h hright | arithmetic _ h hright | chain _ h hright =>
    exact ⟨⟨by simp [Kind.samePayload], .cons (.some h) (.cons (.some hright) .nil)⟩, .nil⟩
  | not h | neg h => exact ⟨⟨rfl, .cons (.some h) (.cons .none .nil)⟩, .nil⟩

theorem Alike.block {ns ns' : List Node} (h : List.Forall₂ Alike ns ns') (id id' : NodeId)
    (span span' : Span) (line line' : Nat) :
    ((Node.linked id .block ns).withSpan span line).Alike
      ((Node.linked id' .block ns').withSpan span' line') :=
  (Alike.linked id id' ⟨rfl, .nil⟩ h).withSpan span span' line line'

theorem Alike.rule {name : String} {a b : Node} (h : a.Alike b) (id id' : NodeId)
    (span span' : Span) (line line' : Nat) :
    ((Node.linked id (.rule { name } (some a)) []).withSpan span line).Alike
      ((Node.linked id' (.rule { name } (some b)) []).withSpan span' line') := by
  refine (Alike.linked id id' ⟨?_, .cons (.some h) .nil⟩ .nil).withSpan span span' line line'
  simp [Kind.samePayload, RuleHead.same]

end Node

/-! ## The comparison -/

namespace Parse

/-- Tokens are of the same kinds, and nodes are equal. -/
def Comparison.alike {settings settings' : ParseSettings} (token ends : Token → Token → Prop)
    (golf : settings'.golf = settings.golf)
    (kind_eq : ∀ {t t'}, token t t' → t'.kind = t.kind)
    (proper : ∀ {t t'}, token t t' → t.kind.IsProper)
    (ends_kind : ∀ {t t'}, ends t t' → t.kind = .eof)
    (ends_stops : ∀ {t t'}, ends t t' → t'.kind.delimits = true ∨ t'.kind.breaks = true) :
    Comparison settings settings' where
  token
  kinds := TokenKind.IsProper
  ends
  node := Node.Alike
  exact := False
  token_ne ht := (proper ht).ne_eof
  token_kind := kind_eq
  token_kinds := proper
  token_read ht context := by
    rw [golf]
    exact congrArg (TokenKind.inContext settings.golf context) (kind_eq ht)
  token_eq h := h.elim
  ends_kind
  ends_stops
  ends_eq h := h.elim
  node_eq h := h.elim
  node_depth := Node.Alike.depth_eq
  node_children h := Node.map_depth_eq h.childNodes
  node_identifier h := Kind.identifier_iff_of_samePayload (Node.alike_iff.1 h).1.payload
  node_string h := Kind.string_iff_of_samePayload (Node.alike_iff.1 h).1.payload
  node_letter _ name _ := by rw [golfVerdict?, golfVerdict?, golf]
  node_withSpan h _ _ _ _ _ _ := h.withSpan _ _ _ _
  node_formed h _ _ _ _ _ _ _ _ _ := (Node.Alike.linked _ _ h.alike.1 h.alike.2).withSpan _ _ _ _

end Parse

end Rulebook
