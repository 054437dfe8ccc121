import Mathlib.Data.List.Basic
import Mathlib.Order.Lattice
import Rulebook.Node.Walk

/-!
# The nodes of a tree in preorder

A walk that is never stopped is a fold over the nodes of the tree in preorder. Depth and the table
of rules are such walks; here they are described by recursion on the tree.

## Main definitions

* `Node.preorderFrom depth n`: the nodes of a tree with their depths
* `Node.nodes n`: the nodes of a tree
* `Node.firstSuch`: the first of some nodes that satisfies a test

## Main results

* `Node.walkAll_eq_foldl`: a walk over all nodes as a fold
* `Node.search_eq`, `Node.find?_eq`: a search finds the first node in preorder
* `Node.depth_eq`: a tree is one level deeper than its deepest child
* `Node.find?_ruleTable`: the table holds the first rule of each name
-/

namespace Rulebook

namespace Node

variable {σ : Type}

/-! ## Walks as folds -/

section Folds

/-- The nodes of a tree in preorder, with their depths; the root has the given one. -/
def preorderFrom (depth : Nat) (n : Node) : List (Node × Nat) :=
  (n, depth) :: n.childNodes.attach.flatMap fun c => preorderFrom (depth + 1) c.1
termination_by sizeOf n
decreasing_by exact sizeOf_lt_of_mem_childNodes c.2

/-- The nodes of a tree in preorder. -/
def nodes (n : Node) : List Node :=
  n :: n.childNodes.attach.flatMap fun c => nodes c.1
termination_by sizeOf n
decreasing_by exact sizeOf_lt_of_mem_childNodes c.2

theorem preorderFrom_eq (depth : Nat) (n : Node) :
    n.preorderFrom depth = (n, depth) :: n.childNodes.flatMap (preorderFrom (depth + 1)) := by
  rw [preorderFrom, List.flatMap_subtype fun _ _ => rfl, List.unattach_attach]

theorem nodes_eq (n : Node) : n.nodes = n :: n.childNodes.flatMap nodes := by
  rw [nodes, List.flatMap_subtype fun _ _ => rfl, List.unattach_attach]

theorem map_fst_preorderFrom (n : Node) (depth : Nat) :
    (n.preorderFrom depth).map Prod.fst = n.nodes := by
  induction n using Node.induction generalizing depth with
  | step n ih =>
    rw [preorderFrom_eq, nodes_eq, List.map_cons, List.map_flatMap]
    congr 1
    exact List.flatMap_congr fun c hc => ih c hc (depth + 1)

/-- The nodes below the pending nodes of a walk, in the order of the walk. -/
def pendingNodes (pending : List (Node × Nat)) : List (Node × Nat) :=
  pending.flatMap fun p => p.1.preorderFrom p.2

theorem pendingNodes_cons (n : Node) (depth : Nat) (pending : List (Node × Nat)) :
    pendingNodes ((n, depth) :: pending) =
      (n, depth) :: pendingNodes (n.childrenAt depth ++ pending) := by
  simp only [pendingNodes, childrenAt, List.flatMap_cons, List.flatMap_append, List.flatMap_map,
    preorderFrom_eq depth, List.cons_append]

theorem walkList_proceed (visit : Node → Nat → σ → σ) (s : σ) (pending : List (Node × Nat)) :
    walkList (fun n depth s => (.proceed, visit n depth s)) s pending =
      (true, (pendingNodes pending).foldl (fun s p => visit p.1 p.2 s) s) := by
  induction h : totalSize (pending.map Prod.fst) using Nat.strong_induction_on
    generalizing s pending with
  | h size ih =>
    cases pending with
    | nil => simp [walkList, pendingNodes]
    | cons p pending =>
      obtain ⟨n, depth⟩ := p
      rw [walkList, pendingNodes_cons, List.foldl_cons]
      refine ih _ ?_ _ _ rfl
      -- The children together are smaller than the node that they replace.
      have := totalSize_childNodes_lt n
      simp only [← h, List.map_append, map_fst_childrenAt, totalSize_append, List.map_cons,
        totalSize]
      omega

/-- A walk over all nodes is a fold over them in preorder. -/
theorem walkAll_eq_foldl (visit : Node → Nat → σ → σ) (s : σ) (n : Node) :
    n.walkAll visit s = (n.preorderFrom 1).foldl (fun s p => visit p.1 p.2 s) s := by
  rw [walkAll, walk, walkList_proceed]
  simp [pendingNodes]

/-- The count of a tree is the number of its nodes. -/
theorem count_eq (n : Node) : n.count = n.nodes.length := by
  have hfold (ps : List (Node × Nat)) (k : Nat) :
      ps.foldl (fun k _ => k + 1) k = k + ps.length := by
    induction ps generalizing k with
    | nil => rfl
    | cons p ps ih => rw [List.foldl_cons, ih, List.length_cons]; omega
  rw [count, walkAll_eq_foldl, hfold, Nat.zero_add, ← map_fst_preorderFrom n 1, List.length_map]

end Folds

/-! ## Searches -/

section Searches

/-- The first of some nodes that satisfies a test. The test is made of one node after the other, and
of none behind the first that satisfies it. -/
def firstSuch (test : Node → σ → Bool × σ) (s : σ) : List Node → Option Node × σ
  | [] => (none, s)
  | n :: ns =>
    match test n s with
    | (true, s) => (some n, s)
    | (false, s) => firstSuch test s ns

theorem walkList_search (test : Node → σ → Bool × σ) (s : σ) (pending : List (Node × Nat)) :
    (walkList (seek test) (none, s) pending).2 =
      firstSuch test s ((pendingNodes pending).map Prod.fst) := by
  induction h : totalSize (pending.map Prod.fst) using Nat.strong_induction_on
    generalizing s pending with
  | h size ih =>
    cases pending with
    | nil => simp [walkList, pendingNodes, firstSuch]
    | cons p pending =>
      obtain ⟨n, depth⟩ := p
      rw [walkList, pendingNodes_cons, List.map_cons, firstSuch, seek]
      rcases test n s with ⟨_ | _, t⟩
      · refine ih _ ?_ _ _ rfl
        have := totalSize_childNodes_lt n
        simp only [← h, List.map_append, map_fst_childrenAt, totalSize_append, List.map_cons,
          totalSize]
        omega
      · rfl

/-- A search makes its test of the nodes in preorder. -/
theorem search_eq (test : Node → σ → Bool × σ) (s : σ) (n : Node) :
    n.search test s = firstSuch test s n.nodes := by
  rw [search, walk, walkList_search, ← map_fst_preorderFrom n 1]
  simp [pendingNodes]

/-- A search finds the first node in preorder that satisfies the test. -/
theorem find?_eq (test : Node → Bool) (n : Node) : n.find? test = n.nodes.find? test := by
  rw [find?, search_eq]
  induction n.nodes with
  | nil => rfl
  | cons m ns ih => rw [firstSuch, List.find?_cons]; cases test m <;> simp [ih]

theorem preorder_eq (n : Node) : n.preorder = n.preorderFrom 1 := by
  have hpush (ps : List (Node × Nat)) (seen : Array (Node × Nat)) :
      (ps.foldl (fun seen p => seen.push (p.1, p.2)) seen).toList = seen.toList ++ ps := by
    induction ps generalizing seen with
    | nil => simp
    | cons p ps ih => rw [List.foldl_cons, ih]; simp
  rw [preorder, walkAll_eq_foldl, hpush, List.nil_append]

end Searches

/-! ## Depth -/

section Depth

/-- The depth of the deepest of some nodes. -/
def tallest (ns : List Node) : Nat :=
  (ns.map depth).foldl max 0

@[simp] theorem tallest_nil : tallest [] = 0 := rfl

theorem tallest_cons (n : Node) (ns : List Node) :
    tallest (n :: ns) = max n.depth (tallest ns) := by
  simp only [tallest, List.map_cons, List.foldl_cons, Nat.zero_max]
  rw [← Nat.max_zero n.depth, List.foldl_assoc, Nat.max_zero]

theorem depth_eq_foldl (n : Node) :
    n.depth = (n.preorderFrom 1).foldl (fun deepest p => max deepest p.2) 0 :=
  walkAll_eq_foldl _ _ _

theorem foldl_max_flatMap {ns : List Node} {depth k : Nat} (hk : depth ≤ k)
    (ih : ∀ n ∈ ns, ∀ k, (n.preorderFrom (depth + 1)).foldl (fun d p => max d p.2) k =
      max k (depth + n.depth)) :
    (ns.flatMap (preorderFrom (depth + 1))).foldl (fun d p => max d p.2) k =
      max k (depth + tallest ns) := by
  induction ns generalizing k with
  | nil => simpa using hk
  | cons n ns hns =>
    rw [List.flatMap_cons, List.foldl_append, ih n List.mem_cons_self,
      hns (Nat.le_trans hk (Nat.le_max_left _ _)) fun m hm => ih m (List.mem_cons_of_mem n hm),
      tallest_cons]
    omega

theorem foldl_max_preorderFrom (n : Node) (depth k : Nat) :
    (n.preorderFrom (depth + 1)).foldl (fun d p => max d p.2) k = max k (depth + n.depth) := by
  induction n using Node.induction generalizing depth k with
  | step n ih =>
    have below (depth k : Nat) (hk : depth + 1 ≤ k) :=
      foldl_max_flatMap hk fun c hc k => ih c hc (depth + 1) k
    -- The depth itself is the case of a root on the first level.
    have hn : n.depth = 1 + tallest n.childNodes := by
      rw [depth_eq_foldl, preorderFrom_eq, List.foldl_cons, below 0 _ (by simp)]
      simp only
      omega
    rw [preorderFrom_eq, List.foldl_cons, below depth _ (Nat.le_max_right _ _), hn]
    omega

/-- A tree is one level deeper than its deepest child. -/
theorem depth_eq (n : Node) : n.depth = 1 + tallest n.childNodes := by
  rw [depth_eq_foldl, preorderFrom_eq, List.foldl_cons,
    foldl_max_flatMap (by simp) fun c _ k => foldl_max_preorderFrom c 1 k]
  simp only
  omega

theorem tallest_le {ns : List Node} {k : Nat} (h : ∀ n ∈ ns, n.depth ≤ k) : tallest ns ≤ k := by
  induction ns with
  | nil => exact Nat.zero_le k
  | cons n ns ih =>
    rw [tallest_cons]
    exact Nat.max_le.2 ⟨h n List.mem_cons_self, ih fun m hm => h m (List.mem_cons_of_mem n hm)⟩

end Depth

/-! ## The table of rules -/

section Rules

/-- Whether a node is a rule with a name. -/
def isRule (name : String) (n : Node) : Bool :=
  n.kind.rule?.any (·.name == name)

/-- Enters a node in a table of rules, if it is a rule and its name is new. -/
def enterRule (rules : Dict Node) (n : Node) : Dict Node :=
  match n.kind.rule? with
  | some head => rules.insertNew head.name n
  | none => rules

theorem ruleTable_eq (n : Node) : n.ruleTable = n.nodes.foldl enterRule [] := by
  rw [← map_fst_preorderFrom n 1, List.foldl_map]
  exact walkAll_eq_foldl (fun m _ rules => enterRule rules m) [] n

theorem find?_enterRule (rules : Dict Node) (n : Node) (name : String) :
    (enterRule rules n).find? name =
      (rules.find? name).or (if n.isRule name then some n else none) := by
  rw [enterRule, isRule]
  cases hr : n.kind.rule? with
  | none => simp
  | some head =>
    rw [Dict.find?_insertNew]
    by_cases hname : head.name = name
    · subst hname
      cases rules.find? head.name <;> simp
    · simp [hname]

theorem find?_foldl_enterRule (rules : Dict Node) (ns : List Node) (name : String) :
    (ns.foldl enterRule rules).find? name = (rules.find? name).or (ns.find? (isRule name)) := by
  induction ns generalizing rules with
  | nil => simp
  | cons n ns ih =>
    rw [List.foldl_cons, ih, find?_enterRule, List.find?_cons, Option.or_assoc]
    cases n.isRule name <;> simp

/-- The table of rules holds the first rule of each name. -/
theorem find?_ruleTable (n : Node) (name : String) :
    n.ruleTable.find? name = n.nodes.find? (isRule name) := by
  rw [ruleTable_eq, find?_foldl_enterRule, Dict.find?_nil, Option.none_or]

end Rules

end Node

end Rulebook
