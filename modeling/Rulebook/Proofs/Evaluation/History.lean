import Rulebook.Proofs.Evaluation.Recording
import Rulebook.Proofs.Evaluation.Related
import Rulebook.Proofs.Explanation.Renamed

/-!
# Evaluations do not depend on history

An evaluator keeps what its last evaluation came to, and a tree its flags and counts. Nothing of
either has a part in the next evaluation.

## Main definitions

* `Eval.IsMarked`: a node with marks
* `Evaluator.Reachable`: an evaluator that was made, used, asked and read in any order

## Main results

* `Eval.node_withMarks`: marks are not seen in an evaluation
* `Evaluator.run_withMarks`: an evaluation of a marked tree is one of the tree
* `Evaluator.run_of_reachable`: any evaluator does what a new one does
-/

namespace Rulebook

variable {σ : Type}

/-! ## Marked trees -/

namespace Eval

section Marked

variable (executed : NodeId → Bool) (activations : NodeId → Nat) {host : Host σ}
  {settings : EvalSettings} {rules rules' : Dict Node}

/-- The second node is the first one with the given marks. -/
def IsMarked (n m : Node) : Prop :=
  m = n.withMarks executed activations

theorem describe_withMarks (t : Trace) (n : Node) :
    t.describe (n.withMarks executed activations) = t.describe n := by
  rw [Trace.describe, Trace.describe, Node.brief_withMarks, Node.label_withMarks]

/-- At a node and at its marked form the same moves are made. -/
theorem marked_keeps :
    Keeps ⟨host, settings, rules⟩ ⟨host, settings, rules'⟩ (IsMarked executed activations)
      (@Eq (EvalState σ)) where
  golf := rfl
  maxDepth := rfl
  active h := congrArg EvalState.active h.symm
  activate h active := congrArg (fun s : EvalState σ => { s with active }) h
  read := by
    rintro s _ rfl name
    exact ⟨rfl, rfl⟩
  perform := by
    rintro s _ rfl n _ rfl c c' haction hkind
    refine ⟨rfl, ?_⟩
    simp only [EvalState.performed, Trace.consequence, Node.id_withMarks, haction, hkind]
    rfl
  assigned := by
    rintro s _ rfl n _ rfl name value
    simp only [EvalState.assigned, Trace.change, Node.id_withMarks]
    rfl
  decided := by
    rintro s _ rfl n _ c _ rfl rfl value
    simp only [EvalState.decided, Trace.condition, Trace.decision, describe_withMarks,
      Node.id_withMarks]
    rfl
  activated := by
    rintro s _ rfl n _ rfl head head' hname
    simp only [EvalState.activated, Trace.activation, Node.id_withMarks, hname]
    rfl
  failed := by
    rintro s _ rfl n _ rfl fault
    rw [EvalState.failed, EvalState.failed, Node.id_withMarks]
    rfl
  error := by
    rintro s _ rfl n _ rfl fault
    rw [Node.id_withMarks]
    rfl
  remark := by
    rintro s _ rfl n _ rfl text
    rw [Node.id_withMarks]
    rfl
  enter := by
    rintro s _ rfl n _ rfl
    simp only [EvalState.enter, Trace.enter, Node.id_withMarks, Node.brief_withMarks]
    rfl
  leave := by
    rintro s _ rfl n _ rfl value
    simp only [EvalState.leave, Trace.exit, Node.id_withMarks, Node.kind_withMarks,
      Kind.name_mark, Kind.name_map]
    rfl

/-- Marks are not seen in an evaluation, neither those of the node nor those of the rules that are
called. -/
theorem node_withMarks
    (hrules : ∀ name, rules'.find? name =
      (rules.find? name).map (Node.withMarks executed activations))
    (levels : Nat) (n : Node) :
    node ⟨host, settings, rules⟩ levels n =
      node ⟨host, settings, rules'⟩ levels (n.withMarks executed activations) := by
  have hself (c : Node) : IsMarked executed activations c (c.withMarks executed activations) := rfl
  refine ((marked_keeps executed activations).node (N := IsMarked executed activations) ?_
    (fun name => ?_) levels (hself n)).eq
  · rintro n _ rfl
    refine ⟨rfl, ?_, ?_⟩
    · rw [Node.kind_withMarks]
      exact (Kind.matches_map hself n.kind).mark _ _
    · rw [Node.children_withMarks, List.forall₂_map_right_iff]
      exact List.forall₂_same.2 fun c _ => hself c
  · exact hrules name ▸ rel_map hself _

end Marked

end Eval

namespace Evaluator

variable (e : Evaluator) (host : Host σ) (root : Node) (world : σ)

/-- An evaluation of a marked tree is one of the tree. -/
theorem run_withMarks (executed : NodeId → Bool) (activations : NodeId → Nat) :
    e.run host (root.withMarks executed activations) world = e.run host root world := by
  have houtcome : e.outcome host (root.withMarks executed activations) world =
      e.outcome host root world := by
    rw [outcome, outcome, Eval.node_withMarks executed activations fun name =>
      Node.find?_ruleTable_withMarks executed activations name root]
    rfl
  have hfinish (value : Value) (s : EvalState σ) :
      e.finish (root.withMarks executed activations) value s = e.finish root value s := by
    simp only [finish, answer, explain_withMarks, Node.withMarks_withMarks]
  simp only [run_eq, houtcome, hfinish]

/-- The tree that an evaluation leaves has the explanations of the tree. -/
theorem explain_tree_run (trace : Trace) (question : Question) :
    explain (e.run host root world).tree trace question = explain root trace question := by
  rw [run_eq]
  split
  · exact explain_withMarks _ _ _ _ _
  · exact explain_withMarks _ _ _ _ _

/-! ## Used evaluators -/

/-- An evaluator that was made with some settings and has evaluated any trees since, been asked for
any explanations, and had its trace read in any order. -/
inductive Reachable : Evaluator → Prop where
  | ofSettings (settings : EvalSettings) : Reachable (ofSettings settings)
  | withQuestion {e : Evaluator} (h : Reachable e) (question : Option Question) :
      Reachable (e.withQuestion question)
  | run {τ : Type} {e : Evaluator} (h : Reachable e) (host : Host τ) (root : Node) (world : τ) :
      Reachable (e.run host root world).evaluator
  | next {e : Evaluator} (h : Reachable e) : Reachable { e with trace := e.trace.next.2 }
  | rewind {e : Evaluator} (h : Reachable e) : Reachable { e with trace := e.trace.rewind }

/-- The settings of the trace are those that the evaluator asks for. -/
theorem Reachable.settings_trace {e : Evaluator} (h : e.Reachable) :
    e.trace.settings = e.settings.traceSettings := by
  induction h with
  | ofSettings settings => rfl
  | withQuestion _ question ih => exact ih
  | run _ host root world ih => rw [settings_trace_run, settings_run, ih]
  | @next e _ ih =>
    have hnext : e.trace.next.2.settings = e.trace.settings := by
      rw [Trace.next]
      split <;> rfl
    exact hnext.trans ih
  | rewind _ ih => exact ih

/-- **Evaluations do not depend on history.** Whatever an evaluator has done, and whatever flags and
counts a tree has, the evaluation comes to what a new evaluator with the same settings makes of the
tree without flags and counts: value, host, faults, counters, trace, explanation and marks. -/
theorem run_of_reachable (h : e.Reachable) :
    e.run host root world = (ofSettings e.settings).run host root.reset world := by
  rw [Node.reset, run_withMarks, run_eq, run_eq]
  -- Of the evaluator only the settings of its trace reach the start of the evaluation.
  have houtcome : e.outcome host root world =
      (ofSettings e.settings).outcome host root world := by
    rw [outcome, outcome, start, start, Trace.reset, h.settings_trace]
    rfl
  rw [houtcome]
  rfl

/-- An evaluator whose last evaluation ended with an error and whose trace was read in part, and a
tree with the flags of another evaluation. -/
theorem run_of_reachable_marked :
    let failed := ((ofSettings {}).run Environment.host selfCall {}).evaluator
    let used := withQuestion { failed with trace := failed.trace.next.2 } (some .why)
    let marked := ((ofSettings {}).run Environment.host scoring {}).tree
    used.Reachable ∧ used.faults.size = 1 ∧ used.stats.nodes = 3 ∧ used.trace.cursor = 1 ∧
      marked.nodes.any (·.kind.consequence?.any (·.executed)) ∧
      used.run Environment.host marked {} =
        (ofSettings used.settings).run Environment.host marked.reset {} := by
  have hused : Reachable (withQuestion
      { ((ofSettings {}).run Environment.host selfCall {}).evaluator with
        trace := ((ofSettings {}).run Environment.host selfCall {}).evaluator.trace.next.2 }
      (some .why)) :=
    .withQuestion (.next (.run (.ofSettings {}) Environment.host selfCall {})) (some .why)
  exact ⟨hused, by decide +kernel, by decide +kernel, by decide +kernel, by decide +kernel,
    run_of_reachable _ _ _ _ hused⟩

end Evaluator

end Rulebook
