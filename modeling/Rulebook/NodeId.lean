/-!
# Identities of nodes

## Main definitions

* `NodeId`: the identity of a node of a decision tree
* `Fresh`: computations that issue identities, each of them once
-/

namespace Rulebook

/-- The identity of a node. Traces and messages refer to nodes by it. -/
structure NodeId where
  number : Nat
  deriving DecidableEq, Ord, Inhabited

namespace NodeId

@[simp] theorem number_inj {a b : NodeId} : a.number = b.number ↔ a = b :=
  ⟨fun h => congrArg NodeId.mk h, congrArg NodeId.number⟩

instance : LT NodeId := ⟨fun a b => a.number < b.number⟩

instance (a b : NodeId) : Decidable (a < b) :=
  inferInstanceAs (Decidable (a.number < b.number))

/-- How messages mention a node when nothing better is known. -/
def hashed (id : NodeId) : String :=
  "#" ++ toString id.number

end NodeId

/-- A computation that may issue identities. Its state is the next identity to issue, so no two
issued identities are equal. -/
abbrev Fresh (α : Type) := StateM NodeId α

/-- Issues an identity. -/
def freshId : Fresh NodeId := fun next =>
  (next, ⟨next.number + 1⟩)

end Rulebook
