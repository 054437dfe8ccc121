import Rulebook.Proofs.Evaluation.Checked
import Rulebook.Proofs.Evaluation.Folding
import Rulebook.Proofs.Trace.Links

/-!
# Invariants of evaluations

A property of states that is kept by each move, and by the beginning and the end of the evaluation
of each node, is kept by whole evaluations, however they end.

## Main definitions

* `Eval.Invariant`: a property that each part of an evaluation keeps
* `Eval.KeptByRecordings`: a property of traces and of the counts of rules that recordings keep

## Main results

* `Eval.Invariant.course`, `Eval.Invariant.cut`: evaluations keep invariants
* `Eval.KeptByRecordings.invariant`: what recordings keep is an invariant
* `Evaluator.exists_state_run`: it holds of the state that an evaluation of a tree leaves
-/

namespace Rulebook

variable {σ : Type}

/-- Entries of this kind stand for themselves. Conditions and decisions come in pairs, and
activations are counted. -/
def TraceKind.isPlain : TraceKind → Bool
  | condition | decision | activation => false
  | _ => true

namespace Eval

variable {ctx : EvalContext σ} {scope : Node → Prop} {I : EvalState σ → Prop}

/-- A property of states that is kept by each part of an evaluation that stays among given
nodes. -/
structure Invariant (ctx : EvalContext σ) (scope : Node → Prop) (I : EvalState σ → Prop) :
    Prop where
  move : ∀ {s t}, Move ctx scope s t → I s → I t
  abort : ∀ {s n}, scope n → ∀ e, I s → I (s.record ctx (·.error (some n.id) (.ofError e)))
  active : ∀ {s}, I s → ∀ active, I { s with active }
  enter : ∀ {s n}, scope n → I s → I (s.enter ctx n)
  leave : ∀ {s n}, scope n → I s → ∀ value, I (s.leave ctx n value)

namespace Invariant

variable {s t : EvalState σ}

/-- An evaluation that comes to a value keeps invariants. -/
theorem course (h : Invariant ctx scope I) (hcourse : Course ctx scope s t) (hs : I s) : I t := by
  induction hcourse with
  | done s => exact hs
  | move first _ ih => exact ih (h.move first hs)
  | within rule _ _ inner rest => exact rest (h.active (inner (h.active hs _)) _)
  | bracket value hn _ _ inner rest => exact rest (h.leave hn (inner (h.enter hn hs)) value)

/-- So does one that is cut off. -/
theorem cut (h : Invariant ctx scope I) {e : Error} (hcut : Cut ctx scope e s t) (hs : I s) :
    I t := by
  induction hcut with
  | abort s hn he => exact h.abort hn e hs
  | after first _ ih => exact ih (h.course first hs)
  | within rule _ inner => exact h.active (inner (h.active hs _)) _
  | bracket hn _ inner => exact h.leave hn (inner (h.enter hn hs)) _

end Invariant

/-! ## What recordings keep -/

/-- A property of the trace, the number of activations and the counts of rules that is kept by what
an evaluation records. -/
structure KeptByRecordings (ctx : EvalContext σ) (scope : Node → Prop)
    (J : Trace → Nat → (NodeId → Nat) → Prop) : Prop where
  plain : ∀ {t total count}, J t total count → ∀ r : Trace.Recording, r.event.kind.isPlain = true →
    J (t.perform r) total count
  decide : ∀ {t total count}, J t total count → ∀ {n c yes no}, scope n →
    n.kind = .decision (some c) yes no → ∀ value : Value,
    J ((t.condition c value).decision n (.ofBool value.isTruthy)) total count
  activate : ∀ {t total} {m : Marks}, J t total m.count → ∀ {n head body}, scope n →
    n.kind = .rule head body → ctx.settings.traces = true →
    J (t.activation n head.name ((m.activate n.id).count n.id)) (total + 1) (m.activate n.id).count
  silent : ∀ {t total} {m : Marks}, J t total m.count → ∀ n : Node, ctx.settings.traces = false →
    J t (total + 1) (m.activate n.id).count

namespace KeptByRecordings

variable {J : Trace → Nat → (NodeId → Nat) → Prop}

theorem record {s : EvalState σ} (hs : J s.trace s.stats.activations s.marks.count)
    {f : Trace → Trace}
    (hf : J s.trace s.stats.activations s.marks.count →
      J (f s.trace) s.stats.activations s.marks.count) :
    J (s.record ctx f).trace (s.record ctx f).stats.activations (s.record ctx f).marks.count := by
  rw [EvalState.record_trace, EvalState.record_stats, EvalState.record_marks]
  split
  · exact hf hs
  · exact hs

/-- What recordings keep is an invariant of evaluations. -/
theorem invariant (h : KeptByRecordings ctx scope J) :
    Invariant ctx scope fun s => J s.trace s.stats.activations s.marks.count where
  move := by
    intro s t hmove hs
    cases hmove with
    | read s hn hk => exact hs
    | fail s hn hf => exact record hs fun hs => h.plain hs (.error _ _) rfl
    | decide value s hn hk =>
      unfold EvalState.decided
      refine record ?_ fun hs => h.decide hs hn hk value
      exact hs
    | assign value s hn hk hc =>
      unfold EvalState.assigned
      refine record ?_ fun hs => h.plain hs (.change _ _ _ value) rfl
      exact hs
    | perform s hn hk hc =>
      unfold EvalState.performed
      refine record ?_ fun hs => h.plain hs (.consequence _ _) rfl
      exact hs
    | @activate n head body s hn hk =>
      unfold EvalState.activated
      rw [EvalState.record_trace, EvalState.record_stats, EvalState.record_marks]
      split
      · next htraces => exact h.activate hs hn hk htraces
      · next htraces => exact h.silent hs n (Bool.eq_false_iff.2 htraces)
    | remark text s hn => exact record hs fun hs => h.plain hs (.message _ text) rfl
  abort hn e hs := record hs fun hs => h.plain hs (.error _ _) rfl
  active hs active := hs
  enter hn hs := by
    unfold EvalState.enter
    refine record ?_ fun hs => h.plain hs (.enter _) rfl
    exact hs
  leave hn hs value := by
    unfold EvalState.leave
    refine record ?_ fun hs => h.plain hs (.exit _ value) rfl
    exact hs

end KeptByRecordings

end Eval

/-- What is left of an evaluation of a tree comes from a state that has all its invariants. -/
theorem Evaluator.exists_state_run (e : Evaluator) (host : Host σ) (root : Node) (world : σ)
    {I : EvalState σ → Prop}
    (h : Eval.Invariant ⟨host, e.settings, root.ruleTable⟩ (· ∈ root.nodes) I)
    (hstart : I (e.start ⟨host, e.settings, root.ruleTable⟩ world)) :
    ∃ s, I s ∧ (e.run host root world).evaluator.trace = s.trace ∧
      (e.run host root world).evaluator.stats = s.stats ∧
      (e.run host root world).tree = root.withMarks s.marks.isExecuted s.marks.count := by
  have hnode : Eval.Leads ⟨host, e.settings, root.ruleTable⟩ (· ∈ root.nodes)
      (e.start ⟨host, e.settings, root.ruleTable⟩ world) (e.outcome host root world) :=
    Eval.node_runs (Eval.closed_nodes host e.settings root) _ root.mem_nodes_self _
  rw [run_eq]
  generalize e.outcome host root world = outcome at hnode
  cases outcome with
  | ok value s => exact ⟨s, h.course hnode hstart, rfl, rfl, rfl⟩
  | error err s => exact ⟨s, h.cut hnode hstart, rfl, rfl, rfl⟩

/-- What recordings keep holds of the trace, the counter and the tree that an evaluation leaves. -/
theorem Evaluator.exists_count_run (e : Evaluator) (host : Host σ) (root : Node) (world : σ)
    {J : Trace → Nat → (NodeId → Nat) → Prop}
    (h : Eval.KeptByRecordings ⟨host, e.settings, root.ruleTable⟩ (· ∈ root.nodes) J)
    (hempty : J e.trace.reset 0 fun _ => 0) :
    ∃ executed count,
      J (e.run host root world).evaluator.trace (e.run host root world).evaluator.stats.activations
        count ∧
      (e.run host root world).tree = root.withMarks executed count := by
  have hcount : ({} : Marks).count = fun _ => 0 := by
    funext id
    simp [Marks.count]
  obtain ⟨s, hs, htrace, hstats, htree⟩ := e.exists_state_run host root world h.invariant (by
    rw [start]
    refine Eval.KeptByRecordings.record ?_ fun hs => h.plain hs (.heading "evaluation") rfl
    rwa [hcount])
  exact ⟨_, _, by rwa [htrace, hstats], htree⟩

end Rulebook
