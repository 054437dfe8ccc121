import Rulebook.Proofs.Evaluation.Budget

/-!
# How often decisions are made

A decision is made at most once, unless it stands in a rule, whose body is evaluated whenever the
rule is called. Then it is made at most as often as the innermost rule around it is activated. A
rule further out says nothing: the inner one may be called by others.

## Main definitions

* `Node.IsGuard`: the innermost rule around a node, if there is one

## Main results

* `Eval.priced_nodes`: the nodes of a tree cost what their parts cost
* `Evaluator.decisions_run_le`: how often a decision is made
-/

namespace Rulebook

/-- The innermost rule around a node, if there is one. -/
def Node.IsGuard (root d : Node) : Option Node → Prop
  | none => ∀ rule ∈ root.nodes, rule.kind.rule?.isSome → d ∉ rule.nodes
  | some rule => root.IsInnermost (·.kind.rule?.isSome) d rule

/-- A node stands in a rule or not. -/
theorem Node.exists_isGuard {root : Node} (hids : (root.nodes.map Node.id).Nodup) (d : Node) :
    ∃ guard, root.IsGuard d guard := by
  by_cases h : ∃ rule ∈ root.nodes, rule.kind.rule?.isSome ∧ d ∈ rule.nodes
  · obtain ⟨rule, hrule, hisRule, hd⟩ := h
    obtain ⟨innermost, hinnermost⟩ := exists_isInnermost (p := (·.kind.rule?.isSome)) hids hrule
      hisRule hd
    exact ⟨some innermost, hinnermost⟩
  · exact ⟨none, fun rule hrule hisRule hd => h ⟨rule, hrule, hisRule, hd⟩⟩

namespace Eval

/-! ## What nodes cost -/

section Costs

theorem sum_map_sub_add {α : Type} {f g : α → Nat} {l : List α} (h : ∀ a ∈ l, g a ≤ f a) :
    (l.map fun a => f a - g a).sum + (l.map g).sum = (l.map f).sum := by
  induction l with
  | nil => rfl
  | cons a l ih =>
    have hhead := h a List.mem_cons_self
    have htail := ih fun b hb => h b (List.mem_cons_of_mem _ hb)
    simp only [List.map_cons, List.sum_cons]
    omega

variable {root d : Node} {guard : Option Node} (hids : (root.nodes.map Node.id).Nodup)
  (hd : d ∈ root.nodes) (hguard : root.IsGuard d guard)
include hids hd hguard

/-- The guard stands below a node only together with what it guards. -/
theorem tally_guard_le {n : Node} (hn : n ∈ root.nodes) :
    (guard.map Node.id).elim 0 (n.tally ·) ≤ n.tally d.id := by
  cases guard with
  | none => exact Nat.zero_le _
  | some rule =>
    have hone := Node.tally_le_one hids hn rule.id
    rcases Nat.eq_zero_or_pos (n.tally rule.id) with hzero | hpos
    · exact hzero.trans_le (Nat.zero_le _)
    · have hrule := (Node.tally_pos_iff hids hn hguard.mem).1 hpos
      have hbelow := (Node.nodes_sublist hrule).subset hguard.contains
      exact hone.trans ((Node.tally_pos_iff hids hn hd).2 hbelow)

/-- A node costs what its parts cost, and itself if it is the decision. The guard pays for one. -/
theorem cost_childNodes {n : Node} (hn : n ∈ root.nodes) :
    (if n.id = d.id then 1 else 0) +
        (n.childNodes.map (cost d.id (guard.map Node.id))).sum =
      cost d.id (guard.map Node.id) n + if some n.id = guard.map Node.id then 1 else 0 := by
  have hle := tally_guard_le hids hd hguard hn
  have hsum : (n.childNodes.map (cost d.id (guard.map Node.id))).sum +
      (n.childNodes.map fun c => (guard.map Node.id).elim 0 (c.tally ·)).sum =
        (n.childNodes.map (Node.tally d.id)).sum :=
    sum_map_sub_add fun c hc =>
      tally_guard_le hids hd hguard (Node.mem_nodes_of_mem_childNodes_of_mem hn hc)
  have hdecision := Node.tally_eq d.id n
  have hrule : (guard.map Node.id).elim 0 (n.tally ·) =
      (if some n.id = guard.map Node.id then 1 else 0) +
        (n.childNodes.map fun c => (guard.map Node.id).elim 0 (c.tally ·)).sum := by
    cases guard with
    | none => simp
    | some rule => simpa using Node.tally_eq rule.id n
  rw [cost]
  omega

/-- No decision is made by calls beyond those that the guard pays for. -/
theorem cost_rule {rule : Node} (hrule : rule ∈ root.nodes) (hisRule : rule.kind.rule?.isSome) :
    cost d.id (guard.map Node.id) rule = 0 := by
  rw [cost, Nat.sub_eq_zero_iff_le]
  rcases Nat.eq_zero_or_pos (rule.tally d.id) with hzero | hpos
  · exact hzero.trans_le (Nat.zero_le _)
  · have hbelow := (Node.tally_pos_iff hids hrule hd).1 hpos
    cases guard with
    | none => exact absurd hbelow (hguard rule hrule hisRule)
    | some innermost =>
      have hin := hguard.least rule hrule hisRule hbelow
      exact (Node.tally_le_one hids hrule d.id).trans
        ((Node.tally_pos_iff hids hrule hguard.mem).2 hin)

omit hd in
/-- A tree without a guard costs one decision, and nothing with it. -/
theorem cost_root_le : cost d.id (guard.map Node.id) root ≤ guard.elim 1 fun _ => 0 := by
  have hone := Node.tally_le_one hids root.mem_nodes_self d.id
  cases guard with
  | none => exact hone
  | some rule =>
    have hpos := (Node.tally_pos_iff hids root.mem_nodes_self hguard.mem).2 hguard.mem
    exact (Nat.sub_eq_zero_iff_le.2 (hone.trans hpos)).le

/-- The nodes of a tree are priced. -/
theorem priced_nodes {σ : Type} (host : Host σ) (settings : EvalSettings) :
    Priced ⟨host, settings, root.ruleTable⟩ d.id (guard.map Node.id) (· ∈ root.nodes) where
  closed := closed_nodes host settings root
  calls {name rule} hfind := by
    rw [Node.find?_ruleTable] at hfind
    have hnamed := List.find?_some hfind
    refine cost_rule hids hd hguard (List.mem_of_find?_eq_some hfind) ?_
    rw [Node.isRule] at hnamed
    cases hk : rule.kind.rule? with
    | none => rw [hk] at hnamed; cases hnamed
    | some head => rfl
  rule hn _ := by
    have heq := cost_childNodes hids hd hguard hn
    omega
  other {n} hn hnone := by
    have hne : some n.id ≠ guard.map Node.id := by
      cases guard with
      | none => rintro ⟨⟩
      | some rule =>
        intro hid
        obtain rfl : n = rule :=
          List.inj_on_of_nodup_map hids hn hguard.mem (Option.some.inj hid)
        have hisRule := hguard.holds
        rw [hnone] at hisRule
        cases hisRule
    have heq := cost_childNodes hids hd hguard hn
    rw [if_neg hne, Nat.add_zero] at heq
    exact heq.le

end Costs

end Eval

/-! ## Runs -/

namespace Evaluator

variable {σ : Type} (e : Evaluator) (host : Host σ) (root : Node) (world : σ)

/-- A decision that stands in no rule is made at most once. Otherwise it is made at most as often as
the innermost rule around it is activated. -/
theorem decisions_run_le (hids : (root.nodes.map Node.id).Nodup) {d : Node} (hd : d ∈ root.nodes)
    {guard : Option Node} (hguard : root.IsGuard d guard) : ∃ executed count,
      (e.run host root world).tree = root.withMarks executed count ∧
      (e.run host root world).evaluator.trace.decisions d.id ≤
        guard.elim 1 fun rule => count rule.id := by
  have hnode := Eval.node_spends (Eval.priced_nodes hids hd hguard host e.settings)
    e.settings.maxDepth root.mem_nodes_self (e.start ⟨host, e.settings, root.ruleTable⟩ world)
  have hroot := Eval.cost_root_le hids hguard
  -- Before the root is evaluated, there is only a heading.
  have hstart : (e.start ⟨host, e.settings, root.ruleTable⟩ world).trace.decisions d.id ≤ 0 := by
    refine (Eval.decisions_record_perform_le rfl (.heading "evaluation") (by rintro ⟨⟩)).trans ?_
    rw [Trace.decisions, show e.trace.reset.toList = [] from Window.toList_empty]
    exact Nat.le_refl _
  have hleft (t : EvalState σ)
      (ht : Eval.Stays d.id (guard.map Node.id) (Eval.cost d.id (guard.map Node.id) root)
        (e.start ⟨host, e.settings, root.ruleTable⟩ world) t) :
      t.trace.decisions d.id ≤ guard.elim 1 fun rule => t.marks.count rule.id := by
    rw [Eval.Stays] at ht
    cases guard with
    | none => simp only [Option.map_none, Option.elim_none] at ht hroot ⊢; omega
    | some rule => simp only [Option.map_some, Option.elim_some] at ht hroot ⊢; omega
  change Eval.Leaving _ _ _ _ (e.outcome host root world) at hnode
  rw [run_eq]
  generalize e.outcome host root world = outcome at hnode
  cases outcome with
  | ok value s => exact ⟨_, _, rfl, hleft s hnode⟩
  | error err s => exact ⟨_, _, rfl, hleft s hnode⟩

end Evaluator

end Rulebook
