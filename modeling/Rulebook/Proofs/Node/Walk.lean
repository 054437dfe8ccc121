import Mathlib.Data.List.Nodup
import Mathlib.Data.List.Perm.Basic
import Rulebook.Proofs.Node.Preorder

/-!
# Walks by recursion

A walk keeps the nodes still to visit in a list. What it does with all of them is what a recursion
does with one after the other, even if the visitor leaves subtrees out or stops the walk, whatever
the visitor remembers.

## Main definitions

* `Node.Call`: a call of a visitor, with what it wanted next
* `Node.tour`: the calls of a recursive walk, and the state behind them
* `Node.noting`: a visitor whose calls are noted
* `Node.postorderFrom`: the nodes of a tree with their depths, each behind the nodes below it

## Main results

* `Node.walkList_eq`: pending nodes are toured one after the other
* `Node.walkPostList_enter`: a walk in postorder finishes a node before it goes on
* `Node.nodup_keys_ruleTable`: the table of rules has each name once
* `Node.walks_recursive`: walks and searches agree with recursions over the tree
-/

namespace Rulebook

namespace Node

variable {σ : Type}

/-! ## Tours -/

section Tours

/-- A call of a visitor: the node, its depth, and what the visitor wanted next. -/
structure Call where
  node : Node
  depth : Nat
  answer : Visit

/-- Whether one of some calls ended the walk. -/
def stopped (calls : List Call) : Bool :=
  calls.any (·.answer = .stop)

/-- Tours one after the other. None comes behind one that was stopped. -/
def inTurn {α : Type} (tour : α → σ → List Call × σ) : List α → σ → List Call × σ
  | [], s => ([], s)
  | a :: as, s =>
    let (calls, s) := tour a s
    if stopped calls then (calls, s)
    else
      let (more, s) := inTurn tour as s
      (calls ++ more, s)

/-- The calls of a recursive walk over a tree, and the state behind them: a node is visited before
the nodes below it, and these only if the visitor wants to proceed. -/
def tour (visit : Node → Nat → σ → Visit × σ) (depth : Nat) (n : Node) (s : σ) : List Call × σ :=
  match visit n depth s with
  | (.proceed, s) =>
    let (below, s) := inTurn (fun c => tour visit (depth + 1) c.1) n.childNodes.attach s
    (⟨n, depth, .proceed⟩ :: below, s)
  | (answer, s) => ([⟨n, depth, answer⟩], s)
termination_by sizeOf n
decreasing_by exact sizeOf_lt_of_mem_childNodes c.2

theorem inTurn_map {α β : Type} (tour : β → σ → List Call × σ) (f : α → β) (as : List α) (s : σ) :
    inTurn tour (as.map f) s = inTurn (fun a => tour (f a)) as s := by
  induction as generalizing s with
  | nil => rfl
  | cons a as ih => simp only [List.map_cons, inTurn, ih]

theorem inTurn_append {α : Type} (tour : α → σ → List Call × σ) (as bs : List α) (s : σ) :
    inTurn tour (as ++ bs) s =
      if stopped (inTurn tour as s).1 then inTurn tour as s
      else
        ((inTurn tour as s).1 ++ (inTurn tour bs (inTurn tour as s).2).1,
          (inTurn tour bs (inTurn tour as s).2).2) := by
  induction as generalizing s with
  | nil => rfl
  | cons a as ih =>
    simp only [List.cons_append, inTurn]
    by_cases hstop : stopped (tour a s).1
    · simp only [if_pos hstop]
    · have hboth (more : List Call) :
          stopped ((tour a s).1 ++ more) = stopped more := by
        rw [stopped, List.any_append, ← stopped, ← stopped, Bool.eq_false_of_not_eq_true hstop,
          Bool.false_or]
      simp only [if_neg hstop, ih, hboth]
      split
      · rfl
      · simp only [List.append_assoc]

theorem tour_eq (visit : Node → Nat → σ → Visit × σ) (depth : Nat) (n : Node) (s : σ) :
    n.tour visit depth s =
      match visit n depth s with
      | (.proceed, s) =>
        let (below, s) := inTurn (tour visit (depth + 1)) n.childNodes s
        (⟨n, depth, .proceed⟩ :: below, s)
      | (answer, s) => ([⟨n, depth, answer⟩], s) := by
  have hattach (s : σ) : inTurn (fun c => tour visit (depth + 1) c.1) n.childNodes.attach s =
      inTurn (tour visit (depth + 1)) n.childNodes s := by
    rw [← inTurn_map (tour visit (depth + 1)) Subtype.val, List.attach_map_subtype_val]
  rw [tour]
  simp only [hattach]

end Tours

/-! ## Preorder -/

section Preorder

/-- Pending nodes are toured one after the other. -/
theorem walkList_eq (visit : Node → Nat → σ → Visit × σ) (s : σ) (pending : List (Node × Nat)) :
    walkList visit s pending =
      (!stopped (inTurn (fun p => p.1.tour visit p.2) pending s).1,
        (inTurn (fun p => p.1.tour visit p.2) pending s).2) := by
  -- Induction on the size of what is pending, since children take the place of their owner.
  induction h : totalSize (pending.map Prod.fst) using Nat.strong_induction_on
    generalizing s pending with
  | h size ih =>
    cases pending with
    | nil => rw [walkList]; rfl
    | cons p pending =>
      obtain ⟨n, depth⟩ := p
      have hsmaller : totalSize ((n.childrenAt depth ++ pending).map Prod.fst) < size := by
        have := totalSize_childNodes_lt n
        simp only [← h, List.map_append, map_fst_childrenAt, totalSize_append, List.map_cons,
          totalSize]
        omega
      have hrest : totalSize (pending.map Prod.fst) < size := by
        rw [List.map_append, totalSize_append] at hsmaller
        omega
      have hbelow (s : σ) :
          inTurn (fun p : Node × Nat => p.1.tour visit p.2) (n.childrenAt depth) s =
            inTurn (tour visit (depth + 1)) n.childNodes s :=
        inTurn_map _ _ _ _
      rw [walkList]
      simp only [inTurn, tour_eq visit depth n]
      rcases visit n depth s with ⟨_ | _ | _, t⟩
      · dsimp only
        rw [ih _ hsmaller t _ rfl, inTurn_append, hbelow]
        have hproceed (calls : List Call) :
            stopped (⟨n, depth, .proceed⟩ :: calls) = stopped calls := rfl
        simp only [hproceed]
        by_cases hstop : stopped (inTurn (tour visit (depth + 1)) n.childNodes t).1
        · simp only [if_pos hstop, hproceed]
        · simp only [if_neg hstop, List.cons_append, hproceed]
      · dsimp only
        rw [ih _ hrest t _ rfl]
        rfl
      · rfl

theorem walk_eq_tour (visit : Node → Nat → σ → Visit × σ) (s : σ) (n : Node) :
    n.walk visit s = (!stopped (n.tour visit 1 s).1, (n.tour visit 1 s).2) := by
  have hone : inTurn (fun p : Node × Nat => p.1.tour visit p.2) [(n, 1)] s = n.tour visit 1 s := by
    simp only [inTurn]
    split
    · rfl
    · rw [List.append_nil]
  rw [walk, walkList_eq, hone]

/-- A visitor whose calls are noted, the last one at the end. -/
def noting (visit : Node → Nat → σ → Visit × σ) (n : Node) (depth : Nat) :
    σ × List Call → Visit × σ × List Call
  | (s, noted) =>
    let (answer, s) := visit n depth s
    (answer, s, noted ++ [⟨n, depth, answer⟩])

/-- What is noted on a tour are its calls. -/
theorem tour_noting (visit : Node → Nat → σ → Visit × σ) (depth : Nat) (n : Node) (s : σ)
    (noted : List Call) :
    n.tour (noting visit) depth (s, noted) =
      ((n.tour visit depth s).1, (n.tour visit depth s).2, noted ++ (n.tour visit depth s).1) := by
  induction n using Node.induction generalizing depth s noted with
  | step n ih =>
    -- The same for a row of children, one after the other.
    have hrow (ns : List Node) (hns : ∀ c ∈ ns, c ∈ n.childNodes) (s : σ) (noted : List Call) :
        inTurn (tour (noting visit) (depth + 1)) ns (s, noted) =
          ((inTurn (tour visit (depth + 1)) ns s).1, (inTurn (tour visit (depth + 1)) ns s).2,
            noted ++ (inTurn (tour visit (depth + 1)) ns s).1) := by
      induction ns generalizing s noted with
      | nil => simp only [inTurn, List.append_nil]
      | cons c ns ihrow =>
        obtain ⟨hc, hns⟩ := List.forall_mem_cons.1 hns
        simp only [inTurn, ih c hc, ihrow hns]
        split
        · rfl
        · simp only [List.append_assoc]
    rw [tour_eq, tour_eq, noting]
    rcases visit n depth s with ⟨_ | _ | _, t⟩
    · simp only [hrow n.childNodes (fun _ hc => hc), List.append_assoc, List.singleton_append]
    · rfl
    · rfl

end Preorder

/-! ## Postorder -/

section Postorder

/-- The nodes of a tree with their depths, each behind the nodes below it; the root has the given
depth. -/
def postorderFrom (depth : Nat) (n : Node) : List (Node × Nat) :=
  (n.childNodes.attach.flatMap fun c => postorderFrom (depth + 1) c.1) ++ [(n, depth)]
termination_by sizeOf n
decreasing_by exact sizeOf_lt_of_mem_childNodes c.2

theorem postorderFrom_eq (depth : Nat) (n : Node) : n.postorderFrom depth =
    n.childNodes.flatMap (postorderFrom (depth + 1)) ++ [(n, depth)] := by
  rw [postorderFrom, List.flatMap_subtype fun _ _ => rfl, List.unattach_attach]

/-- A walk finishes a node, and all nodes below it, before it goes on. -/
theorem walkPostList_enter (visit : Node → Nat → σ → σ) (s : σ) (n : Node) (depth : Nat)
    (pending : List Pending) :
    walkPostList visit s (.enter n depth :: pending) =
      walkPostList visit ((n.postorderFrom depth).foldl (fun s p => visit p.1 p.2 s) s)
        pending := by
  induction n using Node.induction generalizing depth s pending with
  | step n ih =>
    have hrow (ns : List Node) (hns : ∀ c ∈ ns, c ∈ n.childNodes) (s : σ)
        (pending : List Pending) :
        walkPostList visit s (ns.map (.enter · (depth + 1)) ++ pending) =
          walkPostList visit ((ns.flatMap (postorderFrom (depth + 1))).foldl
            (fun s p => visit p.1 p.2 s) s) pending := by
      induction ns generalizing s with
      | nil => rfl
      | cons c ns ihrow =>
        obtain ⟨hc, hns⟩ := List.forall_mem_cons.1 hns
        rw [List.map_cons, List.cons_append, ih c hc, ihrow hns, List.flatMap_cons,
          List.foldl_append]
    rw [walkPostList, hrow n.childNodes (fun _ hc => hc), walkPostList, postorderFrom_eq,
      List.foldl_append]
    rfl

theorem walkPost_eq_foldl (visit : Node → Nat → σ → σ) (s : σ) (n : Node) :
    n.walkPost visit s = (n.postorderFrom 1).foldl (fun s p => visit p.1 p.2 s) s := by
  rw [walkPost, walkPostList_enter, walkPostList]

end Postorder

end Node

/-! ## The table of rules -/

namespace Dict

section Keys

variable {α : Type} {d : Dict α} {key : String}

theorem find?_eq_none_iff : d.find? key = none ↔ key ∉ d.map Prod.fst := by
  induction d with
  | nil => simp
  | cons e d ih =>
    obtain ⟨k, v⟩ := e
    by_cases hk : k = key
    · simp [find?, hk]
    · simp [find?, hk, ih, Ne.symm hk]

/-- A new key comes to those that are there. -/
theorem keys_insert_perm (h : key ∉ d.map Prod.fst) (value : α) :
    ((d.insert key value).map Prod.fst).Perm (key :: d.map Prod.fst) := by
  induction d with
  | nil => exact .refl _
  | cons e d ih =>
    obtain ⟨k, v⟩ := e
    rw [List.map_cons, List.mem_cons, not_or] at h
    rw [insert, if_neg (Ne.symm h.1)]
    split
    · exact .refl _
    · exact ((ih h.2).cons k).trans (.swap _ _ _)

theorem nodup_keys_insertNew (h : (d.map Prod.fst).Nodup) (key : String) (value : α) :
    ((d.insertNew key value).map Prod.fst).Nodup := by
  rw [insertNew]
  split
  · exact h
  · next hnone =>
    have hnew := find?_eq_none_iff.1 hnone
    exact (keys_insert_perm hnew value).nodup_iff.2 (List.nodup_cons.2 ⟨hnew, h⟩)

end Keys

end Dict

namespace Node

section Rules

/-- The table of rules has each name once. -/
theorem nodup_keys_ruleTable (n : Node) : (n.ruleTable.map Prod.fst).Nodup := by
  have hfold (ns : List Node) (rules : Dict Node) (h : (rules.map Prod.fst).Nodup) :
      ((ns.foldl enterRule rules).map Prod.fst).Nodup := by
    induction ns generalizing rules with
    | nil => exact h
    | cons n ns ih =>
      refine ih _ ?_
      rw [enterRule]
      split
      · exact Dict.nodup_keys_insertNew h _ _
      · exact h
  rw [ruleTable_eq]
  exact hfold n.nodes [] .nil

theorem isRule_iff_kind {name : String} {n : Node} :
    n.isRule name = true ↔ ∃ head body, n.kind = .rule head body ∧ head.name = name := by
  rw [isRule]
  cases n.kind <;> simp [Kind.rule?]

theorem mem_keys_ruleTable {n : Node} {name : String} : name ∈ n.ruleTable.map Prod.fst ↔
    ∃ m ∈ n.nodes, ∃ head body, m.kind = .rule head body ∧ head.name = name := by
  rw [← not_iff_not, ← Dict.find?_eq_none_iff, find?_ruleTable, List.find?_eq_none]
  simp only [isRule_iff_kind, not_exists, not_and]

end Rules

/-- **Walks agree with recursions over the tree.** A walk in preorder calls its visitor, whatever
that remembers, as the recursive walk does: on the same nodes, at the same depths, in the same
order, up to the first call that stops it, which is what it tells. A walk in postorder visits each
node behind the nodes below it. A search makes its test, whatever that remembers, of one node after
the other in preorder, up to the first one that satisfies it. The table of rules has the names of
all rules, each with the rule that a search finds. -/
theorem walks_recursive (root : Node) :
    (∀ (σ : Type) (visit : Node → Nat → σ → Visit × σ) (s : σ),
      let calls := (root.tour visit 1 s).1
      root.walk (noting visit) (s, []) =
          ((root.walk visit s).1, (root.walk visit s).2, calls) ∧
        (root.walk visit s).2 = (root.tour visit 1 s).2 ∧
        ((root.walk visit s).1 = false ↔ ∃ call ∈ calls, call.answer = .stop)) ∧
      (∀ (σ : Type) (visit : Node → Nat → σ → σ) (s : σ),
        root.walkPost visit s = (root.postorderFrom 1).foldl (fun s p => visit p.1 p.2 s) s) ∧
      (∀ (σ : Type) (test : Node → σ → Bool × σ) (s : σ),
        root.search test s = firstSuch test s ((root.preorderFrom 1).map Prod.fst)) ∧
      (∀ test, root.find? test = ((root.preorderFrom 1).map Prod.fst).find? test) ∧
      (root.ruleTable.map Prod.fst).Nodup ∧
      (∀ name, name ∈ root.ruleTable.map Prod.fst ↔
        ∃ m ∈ root.nodes, ∃ head body, m.kind = .rule head body ∧ head.name = name) ∧
      ∀ name, root.ruleTable.find? name = root.findRule? name := by
  refine ⟨fun σ visit s => ⟨?_, ?_, ?_⟩, fun σ visit s => walkPost_eq_foldl visit s root,
    fun σ test s => ?_, fun test => ?_, nodup_keys_ruleTable root,
    fun name => mem_keys_ruleTable, fun name => ?_⟩
  · rw [walk_eq_tour, walk_eq_tour, tour_noting]
    rfl
  · rw [walk_eq_tour]
  · rw [walk_eq_tour]
    simp [stopped]
  · rw [map_fst_preorderFrom]
    exact search_eq test s root
  · rw [map_fst_preorderFrom]
    exact find?_eq test root
  · rw [find?_ruleTable]
    exact (find?_eq _ root).symm

end Node

end Rulebook
