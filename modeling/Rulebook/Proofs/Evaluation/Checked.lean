import Rulebook.Node.Equality
import Rulebook.Proofs.Evaluation.Nesting
import Rulebook.Proofs.Node.Check

/-!
# Checked trees lack nothing when they are evaluated

The check of a tree and its evaluation have different views of what a variant needs. What the
check accepts is enough: the only fault about the state of a tree that an evaluation of a checked
tree can meet is the call of a rule that there is not.

## Main definitions

* `Eval.FaultsFrom`: every fault has a cause at a node in scope

## Main results

* `Eval.course_faults`, `Eval.cut_faults`: evaluations find faults at nodes in scope only
* `Evaluator.run_faults_of_check`: faults about the state of a checked tree are unknown rules
-/

namespace Rulebook

variable {σ : Type}

namespace Eval

/-! ## Causes of faults -/

section Faults

variable {ctx : EvalContext σ} {scope : Node → Prop} {s t : EvalState σ}

/-- Every fault has a cause at a node in scope. -/
def FaultsFrom (ctx : EvalContext σ) (scope : Node → Prop) (faults : Array Fault) : Prop :=
  ∀ f ∈ faults, ∃ n, scope n ∧ Cause ctx n f

theorem move_faults (h : Move ctx scope s t) (hs : FaultsFrom ctx scope s.faults) :
    FaultsFrom ctx scope t.faults := by
  cases h with
  | @fail n fault s hn hf =>
    intro f hfault
    simp only [EvalState.failed, EvalState.record_faults, Array.mem_push] at hfault
    rcases hfault with hfault | rfl
    · exact hs f hfault
    · exact ⟨n, hn, hf⟩
  | read s hn hk => exact hs
  | decide value s hn hk => simpa [EvalState.decided] using hs
  | assign value s hn hk hc => simpa [EvalState.assigned] using hs
  | perform s hn hk hc => simpa [EvalState.performed] using hs
  | activate s hn hk => simpa [EvalState.activated] using hs
  | remark text s hn => simpa using hs

/-- An evaluation that comes to a value finds faults at nodes in scope only. -/
theorem course_faults (h : Course ctx scope s t) (hs : FaultsFrom ctx scope s.faults) :
    FaultsFrom ctx scope t.faults := by
  induction h with
  | done s => exact hs
  | move first _ ih => exact ih (move_faults first hs)
  | within rule _ _ inner rest => exact rest (inner hs)
  | bracket value _ _ _ inner rest =>
    refine rest ?_
    simpa [EvalState.leave] using inner (by simpa [EvalState.enter] using hs)

/-- So does one that was cut off, and the error that did it is about nesting. -/
theorem cut_faults {e : Error} (h : Cut ctx scope e s t) (hs : FaultsFrom ctx scope s.faults) :
    FaultsFrom ctx scope t.faults ∧ e.kind = .recursion := by
  induction h with
  | abort s hn he => exact ⟨by simpa using hs, he.kind⟩
  | after first _ ih => exact ih (course_faults first hs)
  | within rule _ inner => exact inner hs
  | bracket hn _ inner =>
    simpa [EvalState.leave] using inner (by simpa [EvalState.enter] using hs)

/-- The nodes of a tree are closed, if rules that are called are looked up in its table. -/
theorem closed_nodes (host : Host σ) (settings : EvalSettings) (root : Node) :
    Closed ⟨host, settings, root.ruleTable⟩ (· ∈ root.nodes) where
  children hn hc := Node.mem_nodes_of_mem_childNodes_of_mem hn hc
  rules h := by
    rw [Node.find?_ruleTable] at h
    exact List.mem_of_find?_eq_some h

end Faults

end Eval

namespace Evaluator

variable (e : Evaluator) (host : Host σ) (root : Node) (world : σ)

/-- A fault of an evaluation has a cause at a node of the tree, or is the error about nesting that
ended the evaluation. -/
theorem run_faults_cases : ∀ f ∈ (e.run host root world).evaluator.faults,
    (∃ err s, Eval.node ⟨host, e.settings, root.ruleTable⟩ e.settings.maxDepth root
        (e.start ⟨host, e.settings, root.ruleTable⟩ world) = .error err s ∧
      err.kind = .recursion ∧ f = .ofError err) ∨
      ∃ n ∈ root.nodes, Eval.Cause ⟨host, e.settings, root.ruleTable⟩ n f := by
  let ctx : EvalContext σ := ⟨host, e.settings, root.ruleTable⟩
  have hstart : Eval.FaultsFrom ctx (· ∈ root.nodes) (e.start ctx world).faults := by
    simp [start, Eval.FaultsFrom]
  have hnode : Eval.Leads ctx (· ∈ root.nodes) (e.start ctx world)
      (EStateM.run (Eval.node ctx e.settings.maxDepth root) (e.start ctx world)) :=
    Eval.node_runs (Eval.closed_nodes host e.settings root) _ root.mem_nodes_self _
  simp only [run, EStateM.run] at hnode ⊢
  split
  · next value s hs =>
    rw [hs] at hnode
    exact fun f hf => .inr (Eval.course_faults hnode hstart f hf)
  · next err s hs =>
    rw [hs] at hnode
    obtain ⟨hfaults, hkind⟩ := Eval.cut_faults hnode hstart
    intro f hf
    simp only [finish, Array.mem_push] at hf
    rcases hf with hf | rfl
    · exact .inr (hfaults f hf)
    · exact .inl ⟨err, s, hs, hkind, rfl⟩

/-- A fault of an evaluation has a cause at a node of the tree, or is about nesting. -/
theorem run_faults : ∀ f ∈ (e.run host root world).evaluator.faults,
    f.kind = .recursion ∨
      ∃ n ∈ root.nodes, Eval.Cause ⟨host, e.settings, root.ruleTable⟩ n f := by
  intro f hf
  refine (e.run_faults_cases host root world f hf).imp_left ?_
  rintro ⟨err, s, -, hkind, rfl⟩
  exact hkind

/-- **Checked trees lack nothing.** In an evaluation of a tree that passes the check, a fault
about the state of the tree is the call of a rule that is not in it. There is none if every rule
that is called is in the tree. -/
theorem run_faults_of_check (h : root.check = .ok ()) :
    (∀ f ∈ (e.run host root world).evaluator.faults, f.kind = .invalidState →
      ∃ m ∈ root.nodes, ∃ name, m.kind = .ruleCall name ∧
        (∀ r ∈ root.nodes, ¬ r.isRule name) ∧ f.message = "unknown rule '" ++ name ++ "'") ∧
    ((∀ m ∈ root.nodes, ∀ name, m.kind = .ruleCall name → ∃ r ∈ root.nodes, r.isRule name) →
      ∀ f ∈ (e.run host root world).evaluator.faults, f.kind ≠ .invalidState) := by
  have unknown : ∀ f ∈ (e.run host root world).evaluator.faults, f.kind = .invalidState →
      ∃ m ∈ root.nodes, ∃ name, m.kind = .ruleCall name ∧
        (∀ r ∈ root.nodes, ¬ r.isRule name) ∧ f.message = "unknown rule '" ++ name ++ "'" := by
    intro f hf hkind
    rcases e.run_faults host root world f hf with hrec | ⟨n, hn, hcause⟩
    · rw [hrec] at hkind
      cases hkind
    · cases hcause with
      | lacking message hpart => exact absurd ((Node.check_eq_ok.1 h).2.partDefect? hn) hpart
      | unknownRule hk hrule =>
        rw [Node.find?_ruleTable, List.find?_eq_none] at hrule
        exact ⟨n, hn, _, hk, hrule, rfl⟩
      | operands hk => rcases hk with hk | hk <;> · rw [hk] at hkind; cases hkind
      | extension hk => cases hkind
  refine ⟨unknown, fun hcalls f hf hkind => ?_⟩
  obtain ⟨m, hm, name, hk, hnone, -⟩ := unknown f hf hkind
  obtain ⟨r, hr, hrule⟩ := hcalls m hm name hk
  exact hnone r hr hrule

/-- A rule whose body calls a rule that there is not. -/
def unknownCall : Node :=
  .linked ⟨1⟩ (.rule { name := "outer" } (some (.linked ⟨2⟩ (.ruleCall "inner") []))) []

/-- A call that leads nowhere is a fault about the state of a checked tree. A call that leads back
to the rule it stands in is a fault as well, but not one about the state of the tree. -/
theorem run_faults_of_check_calls :
    let missed := ((ofSettings {}).run Environment.host unknownCall {}).evaluator.faults
    let looped := ((ofSettings {}).run Environment.host selfCall {}).evaluator.faults
    unknownCall.check = .ok () ∧ missed = #[⟨.invalidState, "unknown rule 'inner'"⟩] ∧
      (∃ m ∈ unknownCall.nodes, ∃ name, m.kind = .ruleCall name ∧
        (∀ r ∈ unknownCall.nodes, ¬ r.isRule name) ∧
        "unknown rule 'inner'" = "unknown rule '" ++ name ++ "'") ∧
      selfCall.check = .ok () ∧ looped.size = 1 ∧ ∀ f ∈ looped, f.kind ≠ .invalidState := by
  have hunknown : unknownCall.check = .ok () := by decide +kernel
  have hself : selfCall.check = .ok () := by decide +kernel
  have hmissed : ((ofSettings {}).run Environment.host unknownCall {}).evaluator.faults =
      #[⟨.invalidState, "unknown rule 'inner'"⟩] := by decide +kernel
  refine ⟨hunknown, hmissed, ?_, hself, by decide +kernel, ?_⟩
  · refine (run_faults_of_check (ofSettings {}) Environment.host unknownCall {} hunknown).1
      ⟨.invalidState, "unknown rule 'inner'"⟩ ?_ rfl
    rw [hmissed]
    exact Array.mem_singleton.2 rfl
  · refine (run_faults_of_check _ _ _ _ hself).2 fun m hm name hk => ?_
    -- The only call is that of the rule itself.
    have hcalls : selfCall.nodes.all fun m =>
        m.kind.name != "RuleCall" || m.kind.samePayload (.ruleCall "loop" : Kind Node) := by
      decide +kernel
    have hm := List.all_eq_true.1 hcalls m hm
    obtain rfl : name = "loop" := by simpa [hk, Kind.name, Kind.samePayload] using hm
    exact ⟨selfCall, selfCall.mem_nodes_self, rfl⟩

end Evaluator

end Rulebook
