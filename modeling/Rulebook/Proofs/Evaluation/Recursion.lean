import Mathlib.Data.Finset.Card
import Mathlib.Data.Finset.Dedup
import Mathlib.Logic.Relation
import Rulebook.Proofs.Evaluation.Nesting
import Rulebook.Proofs.Evaluation.Sites
import Rulebook.Proofs.Node.Check

/-!
# Rules that call each other

A call leads from anywhere in a tree to the top of a rule, so the depth of a tree does not bound how
deep its evaluation gets. But a rule that is active is not activated again, and between two
activations an evaluation only goes down.

The call itself is what makes the count delicate: it takes a level of its own, and below the rule
that it leads to there need not be room for the whole body. There is once the rule is active, since
one more active rule accounts for as many levels as the tree has. If the rule is refused or inactive
instead, its body is not evaluated. `Site.depth_add_le` keeps the two situations apart.

## Main definitions

* `Node.ruleNames`: the names of the rules of a tree
* `Node.InBody`: the nodes in the body of a rule that are in no other rule within it
* `Node.Invokes`: the graph of the rules that call or hold each other

## Main results

* `Site.depth_le`: how deep evaluations get, by the number of the rules and the depth of the tree
* `Evaluator.run_depth_le`: a ceiling above that is never hit
* `Site.invoked`: active rules lead to the node where the evaluation is
* `Evaluator.ruleLoop_notMem_faults`: rules that do not invoke themselves are never cut off
-/

namespace Rulebook

namespace Node

/-- The names of the rules of a tree. -/
def ruleNames (root : Node) : Finset String :=
  (root.nodes.filterMap fun n => n.kind.rule?.map RuleHead.name).toFinset

theorem mem_ruleNames {root n : Node} {head : RuleHead} (hn : n ∈ root.nodes)
    (hk : n.kind.rule? = some head) : head.name ∈ root.ruleNames := by
  rw [ruleNames, List.mem_toFinset, List.mem_filterMap]
  exact ⟨n, hn, by rw [hk, Option.map_some]⟩

/-- The nodes in the body of a rule with a name that are in none of the rules within the body. These
rules themselves are among them. -/
inductive InBody (root : Node) (name : String) : Node → Prop where
  | body {rule body : Node} {head : RuleHead} (h : rule ∈ root.nodes)
      (hk : rule.kind = .rule head (some body)) (hname : head.name = name) : InBody root name body
  | child {n c : Node} (h : InBody root name n) (hn : n.kind.rule? = none)
      (hc : c ∈ n.childNodes) : InBody root name c

/-- A rule with the first name calls rules with the second name in its body, or holds one. What
stands in a rule within the body is up to that rule. -/
def Invokes (root : Node) (name callee : String) : Prop :=
  ∃ n, root.InBody name n ∧ (n.kind = .ruleCall callee ∨ n.isRule callee)

theorem isRule_iff {name : String} {n : Node} :
    n.isRule name = true ↔ ∃ head, n.kind.rule? = some head ∧ head.name = name := by
  simp [isRule, Option.any_eq_true]

end Node

/-! ## How deep evaluations get -/

namespace Site

variable {root n : Node} {depth : Nat} {active : List String}

/-- No rule is active twice. -/
theorem active_nodup (h : Site root n depth active) : active.Nodup := by
  induction h with
  | root => exact List.nodup_nil
  | child _ _ _ ih => exact ih
  | body _ _ hnew ih => exact List.nodup_cons.2 ⟨hnew, ih⟩
  | call _ _ _ ih => exact ih

/-- Only rules of the tree are active. -/
theorem active_subset (h : Site root n depth active) : active.toFinset ⊆ root.ruleNames := by
  induction h with
  | root => exact Finset.empty_subset _
  | child _ _ _ ih => exact ih
  | body h hk _ ih =>
    rw [List.toFinset_cons, Finset.insert_subset_iff]
    exact ⟨Node.mem_ruleNames h.mem_nodes (by rw [hk]; rfl), ih⟩
  | call _ _ _ ih => exact ih

theorem active_length_le (h : Site root n depth active) :
    active.length ≤ root.ruleNames.card := by
  rw [← List.toFinset_card_of_nodup h.active_nodup]
  exact Finset.card_le_card h.active_subset

/-- Each active rule accounts for as many levels as the tree has, and so does the tree around them.
What is below the node has room in these levels as well, unless the node is a rule that may have
been called: its body has room once the rule is active. -/
theorem depth_add_le (h : Site root n depth active) :
    depth + n.depth ≤ (active.length + 1) * root.depth ∨
      n.kind.rule? ≠ none ∧ depth ≤ (active.length + 1) * root.depth := by
  induction h with
  | root => exact .inl (by simp)
  | child _ hn hc ih =>
    rcases ih with hroom | ⟨hrule, -⟩
    · have hlt := Node.depth_lt_of_mem_childNodes hc
      exact .inl (by omega)
    · exact absurd hn hrule
  | @body n body head depth active h hk _ ih =>
    have hlt : body.depth < n.depth :=
      Node.depth_lt_of_mem_childNodes (by simp [Node.childNodes, hk, Kind.operands, Kind.slots])
    have hle := Node.depth_le_of_mem_nodes h.mem_nodes
    -- The levels for the rule that is activated make room for its body, wherever the rule stands.
    rw [List.length_cons, Nat.succ_mul]
    exact .inl (by omega)
  | @call n rule name depth active h hk hr ih =>
    have hpos := n.depth_pos
    rcases ih with hroom | ⟨hrule, -⟩
    · rw [Node.find?_ruleTable] at hr
      obtain ⟨head, hhead, -⟩ := Node.isRule_iff.1 (List.find?_some hr)
      exact .inr ⟨by simp [hhead], by omega⟩
    · exact absurd (by rw [hk]; rfl) hrule

/-- **Rules bound the depth of evaluations.** -/
theorem depth_le (h : Site root n depth active) :
    depth ≤ (root.ruleNames.card + 1) * root.depth := by
  have hlength := Nat.mul_le_mul_right root.depth (Nat.add_le_add_right h.active_length_le 1)
  have hroom := h.depth_add_le
  omega

end Site

/-! ## Which rules are active -/

/-- Each rule that is active leads to the node where the evaluation is: it invokes a rule that holds
the node in its body, or the node is a rule that it invokes. -/
theorem Site.invoked {root n : Node} {depth : Nat} {active : List String}
    (h : Site root n depth active) {name : String} (hname : name ∈ active) :
    (∃ holder, Relation.ReflTransGen root.Invokes name holder ∧ root.InBody holder n) ∨
      ∃ callee, Relation.TransGen root.Invokes name callee ∧ n.isRule callee := by
  induction h with
  | root => cases hname
  | child _ hn hc ih =>
    rcases ih hname with ⟨holder, hpath, hbody⟩ | ⟨callee, -, hrule⟩
    · exact .inl ⟨holder, hpath, hbody.child hn hc⟩
    · obtain ⟨head, hhead, -⟩ := Node.isRule_iff.1 hrule
      exact absurd hn (by simp [hhead])
  | @body n body head depth active h hk _ ih =>
    have hbody : root.InBody head.name body := .body h.mem_nodes hk rfl
    have hhead : n.kind.rule? = some head := by rw [hk]; rfl
    rcases List.mem_cons.1 hname with rfl | hname
    · exact .inl ⟨_, .refl, hbody⟩
    · -- The rule was held by another one or called, and either way it was invoked.
      rcases ih hname with ⟨holder, hpath, hholder⟩ | ⟨callee, hpath, hrule⟩
      · have hrule : n.isRule head.name := Node.isRule_iff.2 ⟨head, hhead, rfl⟩
        exact .inl ⟨_, hpath.tail ⟨n, hholder, .inr hrule⟩, hbody⟩
      · obtain ⟨head', hhead', rfl⟩ := Node.isRule_iff.1 hrule
        obtain rfl : head' = head := Option.some_inj.1 (hhead'.symm.trans hhead)
        exact .inl ⟨_, hpath.to_reflTransGen, hbody⟩
  | @call n rule callee depth active _ hk hr ih =>
    rcases ih hname with ⟨holder, hpath, hholder⟩ | ⟨_, -, hrule⟩
    · rw [Node.find?_ruleTable] at hr
      exact .inr ⟨callee, .tail' hpath ⟨n, hholder, .inl hk⟩, List.find?_some hr⟩
    · obtain ⟨head, hhead, -⟩ := Node.isRule_iff.1 hrule
      rw [hk] at hhead
      cases hhead

/-- A rule that is active when the evaluation gets to it invokes itself, by way of others or not. -/
theorem Site.loop {root n : Node} {depth : Nat} {active : List String}
    (h : Site root n depth active) {name : String} (hn : n.isRule name) (hname : name ∈ active) :
    Relation.TransGen root.Invokes name name := by
  rcases h.invoked hname with ⟨holder, hpath, hbody⟩ | ⟨callee, hpath, hrule⟩
  · exact .tail' hpath ⟨n, hbody, .inr hn⟩
  · obtain ⟨head, hhead, rfl⟩ := Node.isRule_iff.1 hn
    obtain ⟨head', hhead', rfl⟩ := Node.isRule_iff.1 hrule
    obtain rfl : head' = head := Option.some_inj.1 (hhead'.symm.trans hhead)
    exact hpath

/-! ## Runs -/

/-- The two errors about nesting are told apart by the first letters of their messages. -/
theorem Fault.ofError_tooDeep_ne (activity rule : String) (limit : Nat) :
    ofError (.tooDeep activity limit) ≠ ofError (.ruleLoop rule) := by
  intro h
  have hmessage : "maximum recursion depth " ++ toString limit ++ " exceeded in " ++ activity =
      "rule '" ++ rule ++ "' invoked recursively" := congrArg Fault.message h
  have hfirst := congrArg (fun s : String => s.toList.head?) hmessage
  have hmaximum : "maximum recursion depth ".toList = 'm' :: "aximum recursion depth ".toList := by
    decide +kernel
  have hrule : "rule '".toList = 'r' :: "ule '".toList := by decide +kernel
  simp only [String.toList_append, hmaximum, hrule, List.cons_append, List.head?_cons] at hfirst
  cases hfirst

namespace Evaluator

variable {σ : Type} (e : Evaluator) (host : Host σ) (root : Node) (world : σ)

/-- **Rules bound the depth of evaluations.** Under a ceiling that leaves as many levels as the tree
has for each name of a rule and for the tree itself, and one more, no evaluation is cut off there,
however rules call each other. -/
theorem run_depth_le
    (hceiling : (root.ruleNames.card + 1) * root.depth + 1 ≤ e.settings.maxDepth) :
    (∀ limit, Fault.ofError (.tooDeep "evaluator" limit) ∉
        (e.run host root world).evaluator.faults) ∧
      (e.run host root world).evaluator.stats.maxDepth ≤
        (root.ruleNames.card + 1) * root.depth + 1 := by
  refine ⟨fun limit hmem => ?_, ?_⟩
  · obtain ⟨err, herr, hfault⟩ := e.halts_of_mem_faults host root world hmem rfl
    cases herr with
    | ceiling h =>
      have hdepth := h.depth_le
      omega
    | loop => exact Fault.ofError_tooDeep_ne _ _ _ hfault
  · rcases e.maxDepth_run host root world with hzero | ⟨n, depth, active, h, hmax⟩
    · omega
    · have hdepth := h.depth_le
      omega

/-- A rule that calls itself is two levels deep and the only one of its tree. Its evaluation gets to
four levels before it is cut off. -/
theorem run_depth_le_selfCall :
    let r := (ofSettings { maxDepth := 5 }).run Environment.host selfCall {}
    (selfCall.ruleNames.card + 1) * selfCall.depth + 1 = 5 ∧
      (∀ limit, Fault.ofError (.tooDeep "evaluator" limit) ∉ r.evaluator.faults) ∧
      r.evaluator.stats.maxDepth ≤ 5 :=
  have hbound : (selfCall.ruleNames.card + 1) * selfCall.depth + 1 = 5 := by decide +kernel
  have h := run_depth_le (ofSettings { maxDepth := 5 }) Environment.host selfCall {}
    (Nat.le_of_eq hbound)
  ⟨hbound, h.1, hbound ▸ h.2⟩

/-- **Rules that do not invoke themselves are never cut off.** If no rule leads back to itself, no
evaluation ends because a rule was invoked while it was running. -/
theorem ruleLoop_notMem_faults (hacyclic : ∀ name, ¬ Relation.TransGen root.Invokes name name)
    (name : String) :
    Fault.ofError (.ruleLoop name) ∉ (e.run host root world).evaluator.faults := by
  intro hmem
  obtain ⟨err, herr, hfault⟩ := e.halts_of_mem_faults host root world hmem rfl
  cases herr with
  | ceiling => exact Fault.ofError_tooDeep_ne _ _ _ hfault.symm
  | @loop n head body _ _ h hk hactive =>
    have hrule : n.isRule head.name := Node.isRule_iff.2 ⟨head, by rw [hk]; rfl, rfl⟩
    exact hacyclic head.name (h.loop hrule hactive)

/-- A rule that calls another one. -/
def delegation : Node :=
  .linked ⟨1⟩ .block
    [.linked ⟨2⟩ (.rule { name := "main" } (some (.linked ⟨3⟩ (.ruleCall "helper") []))) [],
      .linked ⟨4⟩ (.rule { name := "helper" } (some (.linked ⟨5⟩ (.literal (.bool true)) []))) []]

theorem inBody_delegation {name : String} {n : Node} (h : delegation.InBody name n) :
    (name = "main" ∧ n.kind = .ruleCall "helper" ∨
      name = "helper" ∧ n.kind = .literal (.bool true)) ∧ n.childNodes = [] := by
  induction h with
  | @body rule body head h hk hname =>
    simp [delegation, Node.nodes_eq, Node.linked, Node.childNodes, Node.withParent, Kind.operands,
      Kind.slots, Kind.map, Kind.mapSlots] at h
    -- Two of the nodes are rules, each with a leaf as its body.
    rcases h with rfl | rfl | rfl | rfl | rfl
    · cases hk
    · cases hk
      exact ⟨.inl ⟨hname.symm, rfl⟩, rfl⟩
    · cases hk
    · cases hk
      exact ⟨.inr ⟨hname.symm, rfl⟩, rfl⟩
    · cases hk
  | child _ _ hc ih =>
    rw [ih.2] at hc
    cases hc

theorem invokes_delegation {name callee : String} (h : delegation.Invokes name callee) :
    name = "main" ∧ callee = "helper" := by
  obtain ⟨n, hbody, hcallee⟩ := h
  rcases (inBody_delegation hbody).1 with ⟨hname, hk⟩ | ⟨-, hk⟩
  · exact ⟨hname, by simpa [hk, Node.isRule, Kind.rule?, eq_comm] using hcallee⟩
  · simp [hk, Node.isRule, Kind.rule?] at hcallee

/-- The second rule is activated twice, by the call and as a statement of its own. -/
theorem ruleLoop_notMem_faults_delegation :
    let r := (ofSettings {}).run Environment.host delegation {}
    (∀ name, ¬ Relation.TransGen delegation.Invokes name name) ∧
      r.evaluator.stats.activations = 3 ∧
      ∀ name, Fault.ofError (.ruleLoop name) ∉ r.evaluator.faults :=
  have hacyclic : ∀ name, ¬ Relation.TransGen delegation.Invokes name name := fun name h => by
    -- The first step of such a path would leave `main`, the last one would get to `helper`.
    obtain ⟨_, hfirst, -⟩ := Relation.TransGen.head'_iff.1 h
    obtain ⟨_, -, hlast⟩ := Relation.TransGen.tail'_iff.1 h
    have hname := (invokes_delegation hfirst).1.symm.trans (invokes_delegation hlast).2
    exact absurd hname (by decide)
  ⟨hacyclic, by decide +kernel, ruleLoop_notMem_faults _ _ _ _ hacyclic⟩

end Evaluator

end Rulebook
