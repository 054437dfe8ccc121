import Rulebook.Node.Walk

/-!
# Structural equality of trees

Identities, places in the source, parent links and the notes of evaluations do not count.

## Main definitions

* `Kind.samePayload`: equality of variants and of what they carry beside operands
* `Kind.pairOperands?`: the operands of two nodes side by side
* `Node.same`: equality of trees
-/

namespace Rulebook

namespace Consequence

/-- Equality of consequences. Weights are compared as numbers. -/
def same (a b : Consequence) : Bool :=
  a.action == b.action && a.kind == b.kind && a.weight == b.weight

end Consequence

/-- Equality of rules, bodies left out. -/
def RuleHead.same (a b : RuleHead) : Bool :=
  a.name == b.name && a.isActive == b.isActive

namespace Kind

variable {α β : Type}

/-- Whether two nodes have the same variant and carry the same, operands left out. -/
def samePayload : Kind α → Kind β → Bool
  | decision .., decision .. => true
  | consequence a, consequence b => a.same b
  | rule a _, rule b _ => a.same b
  | logic a _ _, logic b _ _ => a == b
  | comparison a _ _, comparison b _ _ => a == b
  | identifier a, identifier b => a == b
  | literal a, literal b => a.same b
  | chain a _ _, chain b _ _ => a == b
  | arithmetic a _ _, arithmetic b _ _ => a == b
  | block, block => true
  | ruleCall a, ruleCall b => a == b
  | extension a, extension b => a == b
  | _, _ => false

/-- The operands of two rows of slots side by side, if the same slots are filled. -/
def pairSlots? : List (Option α) → List (Option β) → Option (List (α × β))
  | [], [] => some []
  | none :: as, none :: bs => pairSlots? as bs
  | some a :: as, some b :: bs => (pairSlots? as bs).map ((a, b) :: ·)
  | _, _ => none

/-- The operands of two nodes side by side, if the same slots are filled. -/
def pairOperands? (a : Kind α) (b : Kind β) : Option (List (α × β)) :=
  pairSlots? a.slots b.slots

theorem map_fst_of_pairSlots? {as : List (Option α)} {bs : List (Option β)} {ps : List (α × β)}
    (h : pairSlots? as bs = some ps) : ps.map Prod.fst = as.filterMap id := by
  fun_induction pairSlots? as bs generalizing ps with
  | case1 => simp_all
  | case2 as bs ih => simpa using ih h
  | case3 a as b bs ih =>
    obtain ⟨qs, hq, rfl⟩ := Option.map_eq_some_iff.1 h
    simp [ih hq]
  | case4 => simp at h

end Kind

namespace Node

/-- The children of two nodes side by side, if the nodes themselves agree. -/
def pairChildren? (a b : Node) : Option (List (Node × Node)) :=
  if a.kind.samePayload b.kind && a.children.length == b.children.length then
    (a.kind.pairOperands? b.kind).map (· ++ a.children.zip b.children)
  else none

theorem map_fst_of_pairChildren? {a b : Node} {ps : List (Node × Node)}
    (h : a.pairChildren? b = some ps) : ps.map Prod.fst = a.childNodes := by
  simp only [pairChildren?] at h
  split at h
  · next hc =>
    simp only [Bool.and_eq_true, beq_iff_eq] at hc
    obtain ⟨qs, hq, rfl⟩ := Option.map_eq_some_iff.1 h
    rw [List.map_append, Kind.map_fst_of_pairSlots? hq, List.map_fst_zip (Nat.le_of_eq hc.2)]
    rfl
  · simp at h

/-- Whether all pairs of nodes agree, their children included. -/
def sameAll : List (Node × Node) → Bool
  | [] => true
  | (a, b) :: pending =>
    match _h : a.pairChildren? b with
    | some pairs => sameAll (pairs ++ pending)
    | none => false
termination_by pending => totalSize (pending.map Prod.fst)
decreasing_by
  -- The nodes on the left of the new pairs are the children of `a`.
  have hs := totalSize_childNodes_lt a
  rw [← map_fst_of_pairChildren? _h] at hs
  simp only [List.map_append, totalSize_append, List.map_cons, totalSize]
  exact Nat.add_lt_add_right hs _

/-- Whether two trees have the same structure and carry the same. -/
def same (a b : Node) : Bool :=
  sameAll [(a, b)]

end Node

end Rulebook
