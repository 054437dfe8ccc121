import Rulebook.Program
import Rulebook.Proofs.Node.Faithful
import Rulebook.Proofs.Number.Reflexive

/-!
# Copies that equal their originals

A copy carries exactly what its original carries, but equality of trees compares doubles as numbers.
So a tree equals its copy if and only if every node of it carries what equals itself. The check
refuses weights that are not finite; it does not look at the literals, and folding can make a
literal that is NaN.

## Main results

* `Node.Copies.alike_iff`: a tree equals its copy if what its nodes carry equals itself
* `Node.same_copy_iff`: a checked tree equals its copy if none of its literals is NaN
* `Node.same_copy_folded`: a literal that folding makes of two finite texts may be NaN
-/

namespace Rulebook

/-- Related rows are related in another way as well if the members of one of them allow it. -/
theorem forall₂_iff_of_mem {α β : Type} {R S : α → β → Prop} {P : α → Prop} {as : List α}
    {bs : List β} (h : List.Forall₂ R as bs) (hiff : ∀ a ∈ as, ∀ b, R a b → (S a b ↔ P a)) :
    List.Forall₂ S as bs ↔ ∀ a ∈ as, P a := by
  induction h with
  | nil => simp
  | @cons a b as bs hab _ ih =>
    rw [List.forall₂_cons, List.forall_mem_cons, hiff a List.mem_cons_self b hab,
      ih fun a' ha' => hiff a' (List.mem_cons_of_mem a ha')]

namespace Kind

section Payload

variable {α β : Type}

theorem samePayload_bare (a : Kind α) (b : Kind β) :
    a.bare.samePayload b.bare = a.samePayload b := by
  cases a <;> cases b <;> rfl

/-- What nodes carry equals itself, unless it is a number that does not. -/
theorem samePayload_self_iff {k : Kind α}
    (hweight : ∀ c, k = .consequence c → c.weight.isFinite = true) :
    k.samePayload k ↔ ∀ x, k = .literal (.number x) → x.isNaN = false := by
  cases k with
  | consequence c =>
    have hself : (c.weight == c.weight) = true := by
      rw [beq_self_eq_not_isNaN, isNaN_of_isFinite (hweight c rfl), Bool.not_false]
    simp [samePayload, Consequence.same, hself]
  | literal l =>
    cases l with
    | number x =>
      have hself : (x == x) = !x.isNaN := beq_self_eq_not_isNaN x
      simp [samePayload, Literal.same, hself]
    | _ => simp [samePayload, Literal.same]
  | _ => simp [samePayload, RuleHead.same]

theorem mem_operands {k : Kind α} {a : α} : a ∈ k.operands ↔ some a ∈ k.slots := by
  simp [operands]

theorem alike_iff {R : α → β → Prop} {a : Kind α} {b : Kind β} :
    a.Alike R b ↔ a.samePayload b ∧ List.Forall₂ (Option.Rel R) a.slots b.slots :=
  ⟨fun h => ⟨h.payload, h.slots⟩, fun h => ⟨h.1, h.2⟩⟩

/-- An empty slot goes with an empty one, whatever is asked of operands. -/
theorem rel_slots_iff {R S : α → β → Prop} {P : α → Prop} {k : Kind α} {l : Kind β}
    (h : List.Forall₂ (Option.Rel R) k.slots l.slots)
    (hiff : ∀ a ∈ k.operands, ∀ b, R a b → (S a b ↔ P a)) :
    List.Forall₂ (Option.Rel S) k.slots l.slots ↔ ∀ a ∈ k.operands, P a := by
  have hslots : List.Forall₂ (Option.Rel S) k.slots l.slots ↔
      ∀ slot ∈ k.slots, ∀ a ∈ slot, P a := by
    refine forall₂_iff_of_mem h fun slot hslot other hrel => ?_
    cases hrel with
    | none => exact ⟨fun _ _ ha => (Option.not_mem_none _ ha).elim, fun _ => .none⟩
    | @some a b hab =>
      rw [Option.rel_some_some, hiff a (mem_operands.2 hslot) b hab]
      simp
  rw [hslots]
  simp only [mem_operands]
  exact ⟨fun h a ha => h _ ha a rfl, fun h slot hslot a ha => h a (ha ▸ hslot)⟩

end Payload

end Kind

namespace Node

section RoundTrip

/-- A tree equals what carries the same if what its nodes carry equals itself. -/
theorem Copies.alike_iff {n m : Node} (h : Copies n m) :
    n.Alike m ↔ ∀ k ∈ n.nodes, k.kind.samePayload k.kind := by
  induction n using Node.induction generalizing m with
  | step n ih =>
    obtain ⟨hbare, hslots, -, -, hchildren⟩ := h
    have hpayload : n.kind.samePayload m.kind = n.kind.samePayload n.kind := by
      rw [← Kind.samePayload_bare, hbare, Kind.samePayload_bare]
    -- An empty slot equals an empty one; operands and children are compared as trees.
    have hoperands : List.Forall₂ (Option.Rel Alike) n.kind.slots m.kind.slots ↔
        ∀ c ∈ n.kind.operands, ∀ k ∈ c.nodes, k.kind.samePayload k.kind :=
      Kind.rel_slots_iff hslots fun c hc d hcd => ih c (List.mem_append_left _ hc) hcd
    have hgeneric : List.Forall₂ Alike n.children m.children ↔
        ∀ c ∈ n.children, ∀ k ∈ c.nodes, k.kind.samePayload k.kind :=
      forall₂_iff_of_mem hchildren fun c hc d hcd => ih c (List.mem_append_right _ hc) hcd
    rw [Node.alike_iff, forall_mem_nodes_iff, Kind.alike_iff, hpayload, hoperands, hgeneric,
      and_assoc, childNodes, List.forall_mem_append]

/-- **A checked tree equals its copy if and only if none of its literals is NaN.** -/
theorem same_copy_iff {n : Node} (hvalid : n.check = .ok ()) (next : NodeId) :
    n.same (n.copy next).1 ↔
      ∀ m ∈ n.nodes, ∀ x, m.kind = .literal (.number x) → x.isNaN = false := by
  have hflawless := (check_eq_ok.1 hvalid).2
  refine (duplicate_copy n next).copies.alike_iff.trans (forall₂_congr fun m hm => ?_)
  exact Kind.samePayload_self_iff fun c hc => (hflawless.consequence hm hc).2

/-- A difference of two literals that are too large for a double. -/
def excess : Node :=
  (Program.parse {} 256 "x = 1e999 - 1e999" default).1.tree

/-- The tree with its constants folded. -/
def foldedExcess : Node :=
  (excess.foldLevels maxTreeDepth).1

theorem same_copy_iff_excess :
    excess.check = .ok () ∧
      (excess.same (excess.copy ⟨10⟩).1 ↔
        ∀ m ∈ excess.nodes, ∀ x, m.kind = .literal (.number x) → x.isNaN = false) := by
  have hvalid : excess.check = .ok () := by decide +kernel
  exact ⟨hvalid, same_copy_iff hvalid ⟨10⟩⟩

/-- Folding such a difference makes NaN of it. The folded tree passes the check and differs from
its copy. -/
theorem same_copy_folded :
    excess.foldConstants = .ok (foldedExcess, 1) ∧ foldedExcess.check = .ok () ∧
      foldedExcess.same (foldedExcess.copy ⟨10⟩).1 = false := by
  have hdepth : ¬ maxTreeDepth < excess.depth := by decide +kernel
  have hfolds : (excess.foldLevels maxTreeDepth).2 = 1 := by decide +kernel
  refine ⟨?_, by decide +kernel, by decide +kernel⟩
  rw [foldConstants, if_neg hdepth, ← hfolds]
  rfl

end RoundTrip

end Node

end Rulebook
