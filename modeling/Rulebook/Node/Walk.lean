import Rulebook.Node

/-!
# Walks over a tree

Walks keep the nodes still to visit in a list, so that trees of any depth can be walked.

## Main definitions

* `Visit`: what a visitor wants next
* `Node.walk`: preorder, steered by the visitor
* `Node.walkPost`: postorder
* `Node.count`, `Node.depth`: the number of nodes, and of nodes on the longest path
* `Node.search`, `Node.find?`, `Node.ruleTable`: searches in preorder
-/

namespace Rulebook

/-- What a visitor wants next: to go on, to leave out the nodes below this one, or to end. -/
inductive Visit where
  | proceed
  | skipChildren
  | stop
  deriving DecidableEq

namespace Node

variable {σ : Type}

/-! ## Preorder -/

section Preorder

/-- The children of a node, to be visited one level below it. -/
def childrenAt (n : Node) (depth : Nat) : List (Node × Nat) :=
  n.childNodes.map (·, depth + 1)

theorem map_fst_childrenAt (n : Node) (depth : Nat) :
    (n.childrenAt depth).map Prod.fst = n.childNodes := by
  simp [childrenAt, Function.comp_def]

theorem sizeOf_pos (n : Node) : 0 < sizeOf n := by
  cases n
  simp only [Node.mk.sizeOf_spec]
  omega

/-- Visits the pending nodes, each before the nodes below it. -/
def walkList (visit : Node → Nat → σ → Visit × σ) (s : σ) : List (Node × Nat) → Bool × σ
  | [] => (true, s)
  | (n, depth) :: pending =>
    match visit n depth s with
    | (.stop, s) => (false, s)
    | (.skipChildren, s) => walkList visit s pending
    | (.proceed, s) => walkList visit s (n.childrenAt depth ++ pending)
termination_by pending => totalSize (pending.map Prod.fst)
decreasing_by
  · have := sizeOf_pos n
    simp only [List.map_cons, totalSize]
    omega
  · have := totalSize_childNodes_lt n
    simp only [List.map_append, map_fst_childrenAt, totalSize_append, List.map_cons, totalSize]
    omega

/-- Visits the nodes of a tree in preorder, each with its depth; the root has depth one. The
first component tells whether the walk came to its end without being stopped. -/
def walk (visit : Node → Nat → σ → Visit × σ) (s : σ) (n : Node) : Bool × σ :=
  walkList visit s [(n, 1)]

/-- Visits all nodes of a tree in preorder. -/
def walkAll (visit : Node → Nat → σ → σ) (s : σ) (n : Node) : σ :=
  (n.walk (fun n depth s => (.proceed, visit n depth s)) s).2

end Preorder

/-! ## Postorder -/

section Postorder

/-- A node to visit, or one whose children were visited before. -/
inductive Pending where
  | enter (n : Node) (depth : Nat)
  | leave (n : Node) (depth : Nat)

/-- How much of a postorder walk is left for a pending node. -/
noncomputable def Pending.weight : Pending → Nat
  | enter n _ => 2 * sizeOf n
  | leave .. => 1

/-- How much of a postorder walk is left. -/
noncomputable def Pending.totalWeight : List Pending → Nat
  | [] => 0
  | p :: pending => p.weight + totalWeight pending

theorem Pending.totalWeight_append (ps qs : List Pending) :
    totalWeight (ps ++ qs) = totalWeight ps + totalWeight qs := by
  induction ps with
  | nil => simp [totalWeight]
  | cons p ps ih => simp only [List.cons_append, totalWeight, ih]; omega

theorem Pending.totalWeight_enter (ns : List Node) (depth : Nat) :
    totalWeight (ns.map (.enter · depth)) = 2 * totalSize ns := by
  induction ns with
  | nil => simp [totalWeight, totalSize]
  | cons n ns ih => simp only [List.map_cons, totalWeight, weight, totalSize, ih]; omega

/-- Visits the pending nodes, each after the nodes below it. -/
def walkPostList (visit : Node → Nat → σ → σ) (s : σ) : List Pending → σ
  | [] => s
  | .leave n depth :: pending => walkPostList visit (visit n depth s) pending
  | .enter n depth :: pending =>
    walkPostList visit s
      (n.childNodes.map (.enter · (depth + 1)) ++ .leave n depth :: pending)
termination_by pending => Pending.totalWeight pending
decreasing_by
  · simp only [Pending.totalWeight, Pending.weight]
    omega
  · -- Twice the children and one for leaving weigh less than twice the node.
    have := totalSize_childNodes_lt n
    simp only [Pending.totalWeight_append, Pending.totalWeight_enter, Pending.totalWeight,
      Pending.weight]
    omega

/-- Visits the nodes of a tree in postorder, each with its depth. -/
def walkPost (visit : Node → Nat → σ → σ) (s : σ) (n : Node) : σ :=
  walkPostList visit s [.enter n 1]

end Postorder

/-! ## Measures and searches -/

/-- The number of nodes. -/
def count (n : Node) : Nat :=
  n.walkAll (fun _ _ k => k + 1) 0

/-- The number of nodes on the longest path from the root. -/
def depth (n : Node) : Nat :=
  n.walkAll (fun _ depth deepest => max deepest depth) 0

/-- The nodes in preorder, with their depths. -/
def preorder (n : Node) : List (Node × Nat) :=
  (n.walkAll (fun n depth (seen : Array (Node × Nat)) => seen.push (n, depth)) #[]).toList

/-- Ends a walk at a node that satisfies a test. -/
def seek (test : Node → σ → Bool × σ) (n : Node) (_ : Nat) :
    Option Node × σ → Visit × Option Node × σ
  | (_, s) =>
    match test n s with
    | (true, s) => (.stop, some n, s)
    | (false, s) => (.proceed, none, s)

/-- The first node in preorder that satisfies a test, and what the test remembers then. -/
def search (test : Node → σ → Bool × σ) (s : σ) (n : Node) : Option Node × σ :=
  (n.walk (seek test) (none, s)).2

/-- The first node in preorder that satisfies a test which remembers nothing. -/
def find? (test : Node → Bool) (n : Node) : Option Node :=
  (n.search (fun n s => (test n, s)) ()).1

/-- The node with an identity. -/
def findId? (id : NodeId) (n : Node) : Option Node :=
  n.find? (·.id == id)

/-- The first consequence with an action. -/
def findConsequence? (action : String) (n : Node) : Option Node :=
  n.find? fun m => m.kind.consequence?.any (·.action == action)

/-- The first rule with a name. -/
def findRule? (name : String) (n : Node) : Option Node :=
  n.find? fun m => m.kind.rule?.any (·.name == name)

/-- The rules by name; of rules with one name the first in preorder counts. -/
def ruleTable (n : Node) : Dict Node :=
  n.walkAll (fun m _ (rules : Dict Node) =>
    match m.kind.rule? with
    | some head => rules.insertNew head.name m
    | none => rules) []

/-- The variables that a tree assigns, in preorder. -/
def assignedNames (n : Node) : List String :=
  n.preorder.filterMap fun (m, _) =>
    (m.kind.consequence?.filter (·.kind = .assign)).map Consequence.action

end Node

end Rulebook
