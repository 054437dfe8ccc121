import Mathlib.Data.List.Forall2
import Rulebook.Node.Equality
import Rulebook.Proofs.Node.Linked

/-!
# Equal trees

Two trees are equal if their roots carry the same and their children are equal, slot by slot and
one by one. Nodes made alike from equal parts are equal, whatever their identities and places.

## Main definitions

* `Node.Alike`: two trees are equal
* `Kind.Alike`: two nodes carry the same, and their slots hold related operands

## Main results

* `Node.alike_iff`: equality of trees by recursion
* `Node.Alike.linked`: equality of new nodes
* `Node.Alike.depth_eq`: equal trees are equally deep
-/

namespace Rulebook

/-! ## Slots -/

namespace Kind

section Slots

variable {α β : Type} {R : α → β → Prop}

/-- Two nodes have the same variant, carry the same, and the same of their slots are filled, with
related operands. -/
structure Alike (R : α → β → Prop) (a : Kind α) (b : Kind β) : Prop where
  payload : a.samePayload b
  slots : List.Forall₂ (Option.Rel R) a.slots b.slots

theorem exists_pairSlots? {as : List (Option α)} {bs : List (Option β)}
    (h : List.Forall₂ (Option.Rel R) as bs) :
    ∃ ps, pairSlots? as bs = some ps ∧ ∀ p ∈ ps, R p.1 p.2 := by
  induction h with
  | nil => exact ⟨[], rfl, nofun⟩
  | cons hab _ ih =>
    obtain ⟨ps, hps, hR⟩ := ih
    cases hab with
    | none => exact ⟨ps, hps, hR⟩
    | @some a b hab =>
      refine ⟨(a, b) :: ps, ?_, List.forall_mem_cons.2 ⟨hab, hR⟩⟩
      rw [pairSlots?, hps]
      rfl

theorem rel_of_pairSlots? {as : List (Option α)} {bs : List (Option β)} {ps : List (α × β)}
    (h : pairSlots? as bs = some ps) (hR : ∀ p ∈ ps, R p.1 p.2) :
    List.Forall₂ (Option.Rel R) as bs := by
  fun_induction pairSlots? as bs generalizing ps with
  | case1 => exact .nil
  | case2 as bs ih => exact .cons .none (ih h hR)
  | case3 a as b bs ih =>
    obtain ⟨qs, hq, rfl⟩ := Option.map_eq_some_iff.1 h
    obtain ⟨hab, hqs⟩ := List.forall_mem_cons.1 hR
    exact .cons (.some hab) (ih hq hqs)
  | case4 => cases h

theorem Alike.operands {a : Kind α} {b : Kind β} (h : a.Alike R b) :
    List.Forall₂ R a.operands b.operands :=
  List.rel_filterMap (fun _ _ hab => hab) h.slots

variable {α' β' : Type}

theorem samePayload_map (f : α → α') (g : β → β') (a : Kind α) (b : Kind β) :
    (a.map f).samePayload (b.map g) = a.samePayload b := by
  cases a <;> cases b <;> rfl

/-- Operands may be replaced by others if those are related too. -/
theorem Alike.map {R' : α' → β' → Prop} {f : α → α'} {g : β → β'} {a : Kind α} {b : Kind β}
    (h : a.Alike R b) (hR : ∀ x y, R x y → R' (f x) (g y)) : (a.map f).Alike R' (b.map g) where
  payload := by rw [samePayload_map, h.payload]
  slots := by
    rw [slots_map, slots_map, List.forall₂_map_left_iff, List.forall₂_map_right_iff]
    refine h.slots.imp fun x y hxy => ?_
    cases hxy with
    | none => exact .none
    | some hxy => exact .some (hR _ _ hxy)

end Slots

end Kind

namespace Node

/-! ## Equality by recursion -/

section Recursion

/-- Two trees have the same structure and carry the same. -/
abbrev Alike (a b : Node) : Prop :=
  a.same b

theorem sameAll_cons (a b : Node) (pending : List (Node × Node)) :
    sameAll ((a, b) :: pending) =
      ((a.pairChildren? b).any fun pairs => sameAll (pairs ++ pending)) := by
  rw [sameAll]
  split
  · next h => rw [h]; rfl
  · next h => rw [h]; rfl

theorem sameAll_append (ps qs : List (Node × Node)) :
    sameAll (ps ++ qs) = (sameAll ps && sameAll qs) := by
  fun_induction sameAll ps with
  | case1 => simp
  | case2 a b pending pairs h ih =>
    rw [List.cons_append, sameAll_cons, h, ← ih, List.append_assoc]
    rfl
  | case3 a b pending h =>
    rw [List.cons_append, sameAll_cons, h]
    rfl

theorem sameAll_iff (ps : List (Node × Node)) : sameAll ps ↔ ∀ p ∈ ps, p.1.Alike p.2 := by
  induction ps with
  | nil => simp [sameAll]
  | cons p ps ih =>
    have hcons : sameAll (p :: ps) = (p.1.same p.2 && sameAll ps) := sameAll_append [p] ps
    rw [hcons, Bool.and_eq_true, ih, List.forall_mem_cons]

/-- Two trees are equal if their roots carry the same and their children are equal. -/
theorem alike_iff {a b : Node} :
    a.Alike b ↔ a.kind.Alike Alike b.kind ∧ List.Forall₂ Alike a.children b.children := by
  have hsame : a.Alike b ↔ ∃ pairs, a.pairChildren? b = some pairs ∧
      ∀ p ∈ pairs, p.1.Alike p.2 := by
    rw [Alike, same, sameAll_cons, Option.any_eq_true]
    simp only [List.append_nil, sameAll_iff]
  -- The pairs are those of operands in slots, then those of children.
  rw [hsame, pairChildren?]
  constructor
  · rintro ⟨pairs, hpairs, hall⟩
    split at hpairs
    · next hc =>
      obtain ⟨hpayload, hlength⟩ := Bool.and_eq_true_iff.1 hc
      obtain ⟨qs, hqs, rfl⟩ := Option.map_eq_some_iff.1 hpairs
      obtain ⟨hslots, hchildren⟩ := List.forall_mem_append.1 hall
      refine ⟨⟨hpayload, Kind.rel_of_pairSlots? hqs hslots⟩, ?_⟩
      exact List.forall₂_iff_zip.2 ⟨beq_iff_eq.1 hlength, fun hm => hchildren _ hm⟩
    · cases hpairs
  · rintro ⟨hkind, hchildren⟩
    obtain ⟨hlength, hzip⟩ := List.forall₂_iff_zip.1 hchildren
    obtain ⟨qs, hqs, hslots⟩ := Kind.exists_pairSlots? hkind.slots
    refine ⟨qs ++ a.children.zip b.children, ?_, ?_⟩
    · rw [if_pos (by simp [hkind.payload, hlength]), Kind.pairOperands?, hqs]
      rfl
    · exact List.forall_mem_append.2 ⟨hslots, fun p hp => hzip hp⟩

theorem Alike.childNodes {a b : Node} (h : a.Alike b) :
    List.Forall₂ Alike a.childNodes b.childNodes := by
  obtain ⟨hkind, hchildren⟩ := alike_iff.1 h
  exact List.rel_append hkind.operands hchildren

/-- Equal trees are equally deep. -/
theorem Alike.depth_eq {a b : Node} (h : a.Alike b) : a.depth = b.depth := by
  induction a using Node.induction generalizing b with
  | step a ih =>
    -- Equal lists of children are equally deep, one child after the other.
    have htallest {ns ms : List Node} (hns : List.Forall₂ Alike ns ms)
        (hsub : ∀ n ∈ ns, n ∈ a.childNodes) : tallest ns = tallest ms := by
      induction hns with
      | nil => rfl
      | cons hnm _ hrec =>
        rw [tallest_cons, tallest_cons, ih _ (hsub _ List.mem_cons_self) hnm,
          hrec fun n hn => hsub n (List.mem_cons_of_mem _ hn)]
    rw [Node.depth_eq, Node.depth_eq b, htallest h.childNodes fun n hn => hn]

theorem map_depth_eq {ns ms : List Node} (h : List.Forall₂ Alike ns ms) :
    ns.map depth = ms.map depth := by
  induction h with
  | nil => rfl
  | cons hnm _ ih => rw [List.map_cons, List.map_cons, hnm.depth_eq, ih]

end Recursion

/-! ## Equality of new nodes -/

section Links

variable {a b : Node}

theorem Alike.withParent (h : a.Alike b) (p q : NodeId) :
    (a.withParent p).Alike (b.withParent q) := by
  rw [alike_iff] at h ⊢
  exact h

theorem Alike.withSpan (h : a.Alike b) (span span' : Span) (line line' : Nat) :
    (a.withSpan span line).Alike (b.withSpan span' line') := by
  rw [alike_iff] at h ⊢
  exact h

/-- Nodes made alike from equal parts are equal. -/
theorem Alike.linked {kind kind' : Kind Node} {children children' : List Node} (id id' : NodeId)
    (hkind : kind.Alike Alike kind') (hchildren : List.Forall₂ Alike children children') :
    (Node.linked id kind children).Alike (Node.linked id' kind' children') := by
  refine alike_iff.2 ⟨hkind.map fun a b h => h.withParent id id', ?_⟩
  rw [Node.linked, Node.linked, List.forall₂_map_left_iff, List.forall₂_map_right_iff]
  exact hchildren.imp fun a b h => h.withParent id id'

end Links

end Node

end Rulebook
