import Mathlib.Logic.Relation
import Rulebook.Proofs.Evaluation.Checked
import Rulebook.Proofs.Evaluation.Folding
import Rulebook.Proofs.Trace.Links

/-!
# What evaluations record

The trace of an evaluation grows by recordings that are due at the nodes evaluated, and in no other
way. What every such recording keeps is kept by every evaluation, however it ends.

## Main definitions

* `Trace.Grows`: recordings of some sort lead from one trace to another
* `Eval.Due`: the recordings of an evaluation that stays among given nodes

## Main results

* `Trace.Grows.keeps`: what each recording keeps is kept by all of them
* `Eval.course_grows`, `Eval.cut_grows`: evaluations make only recordings that are due
* `Evaluator.run_grows`: the trace of an evaluation grows from an empty one
* `Evaluator.run_linked`, `Evaluator.exists_due_of_mem_trace`: its entries are linked, and recorded
  what was due
-/

namespace Rulebook

/-! ## Growing traces -/

namespace Trace

/-- Recordings of some sort lead from one trace to another. -/
def Grows (due : Recording → Prop) : Trace → Trace → Prop :=
  Relation.ReflTransGen fun t u => ∃ r, due r ∧ u = t.perform r

variable {due : Recording → Prop} {t u v : Trace}

theorem Grows.refl (t : Trace) : t.Grows due t :=
  Relation.ReflTransGen.refl

theorem Grows.trans (h : t.Grows due u) (h' : u.Grows due v) : t.Grows due v :=
  Relation.ReflTransGen.trans h h'

theorem grows_perform (t : Trace) {r : Recording} (hr : due r) : t.Grows due (t.perform r) :=
  Relation.ReflTransGen.single ⟨r, hr, rfl⟩

/-- What each recording keeps is kept by all of them. -/
theorem Grows.keeps {P : Trace → Prop} (h : t.Grows due u) (ht : P t)
    (hperform : ∀ t r, due r → P t → P (t.perform r)) : P u := by
  induction h with
  | refl => exact ht
  | tail _ hstep ih =>
    obtain ⟨r, hr, rfl⟩ := hstep
    exact hperform _ r hr ih

theorem Grows.settings_eq (h : t.Grows due u) : u.settings = t.settings :=
  h.keeps (P := fun u => u.settings = t.settings) rfl
    fun u r _ hu => (settings_perform u r).trans hu

/-- Each entry that is added is that of a recording. -/
theorem Grows.exists_due (h : t.Grows due u) (hempty : t.toList = []) {entry : TraceEntry}
    (hentry : entry ∈ u.toList) :
    ∃ r, due r ∧ entry.event = r.event ∧ entry.node = r.node := by
  refine h.keeps (P := fun u => ∀ entry ∈ u.toList,
    ∃ r, due r ∧ entry.event = r.event ∧ entry.node = r.node) (by simp [hempty]) ?_ entry hentry
  intro u r hr hu entry hentry
  rcases mem_toList_perform hentry with hheld | hnew
  · exact hu entry hheld
  · exact ⟨r, hr, hnew⟩

end Trace

namespace Eval

variable {σ : Type} {ctx : EvalContext σ} {scope : Node → Prop} {s t : EvalState σ}

/-! ## Recordings that are due -/

/-- The recordings of an evaluation that stays among given nodes. -/
inductive Due (scope : Node → Prop) : Trace.Recording → Prop where
  | heading (title : String) : Due scope (.heading title)
  | enter {n : Node} (hn : scope n) : Due scope (.enter n)
  | exit {n : Node} (result : Value) (hn : scope n) : Due scope (.exit n result)
  | condition {n c : Node} {yes no : Option Node} (value : Value) (hn : scope n)
      (hk : n.kind = .decision (some c) yes no) : Due scope (.condition c value)
  | decision {n c : Node} {yes no : Option Node} (branch : Branch) (hn : scope n)
      (hk : n.kind = .decision (some c) yes no) : Due scope (.decision n branch)
  | consequence {n : Node} {c : Consequence} (success : Bool) (value : Value)
      (message : Option String) (hn : scope n) (hk : n.kind = .consequence c)
      (hc : c.kind ≠ .assign) :
      Due scope (.consequence n ⟨c.action, c.kind, success, value, message⟩)
  | activation {n : Node} {head : RuleHead} {body : Option Node} (count : Nat) (hn : scope n)
      (hk : n.kind = .rule head body) : Due scope (.activation n head.name count)
  | change {n : Node} {c : Consequence} (old : Option Value) (new : Value) (hn : scope n)
      (hk : n.kind = .consequence c) (hc : c.kind = .assign) :
      Due scope (.change n c.action old new)
  | error {n : Node} (fault : Fault) (hn : scope n) : Due scope (.error (some n.id) fault)
  | message {n : Node} (text : String) (hn : scope n) : Due scope (.message (some n.id) text)

/-- A recording in a state, which is made if a trace is kept. -/
theorem record_grows {trace : Trace} {f : Trace → Trace} (hs : s.trace = trace)
    (hf : trace.Grows (Due scope) (f trace)) :
    trace.Grows (Due scope) (s.record ctx f).trace := by
  rw [EvalState.record_trace, hs]
  split
  · exact hf
  · exact .refl trace

theorem move_grows (h : Move ctx scope s t) : s.trace.Grows (Due scope) t.trace := by
  cases h with
  | read s hn hk => exact .refl s.trace
  | fail s hn hf => exact record_grows rfl (Trace.grows_perform _ (Due.error _ hn))
  | @decide n c yes no value s hn hk =>
    unfold EvalState.decided
    refine record_grows rfl ?_
    exact (Trace.grows_perform s.trace (Due.condition value hn hk)).trans
      (Trace.grows_perform _ (Due.decision _ hn hk))
  | assign value s hn hk hc =>
    unfold EvalState.assigned
    exact record_grows rfl (Trace.grows_perform s.trace (Due.change _ value hn hk hc))
  | perform s hn hk hc =>
    unfold EvalState.performed
    exact record_grows rfl (Trace.grows_perform s.trace (Due.consequence _ _ _ hn hk hc))
  | activate s hn hk =>
    unfold EvalState.activated
    exact record_grows rfl (Trace.grows_perform s.trace (Due.activation _ hn hk))
  | remark text s hn => exact record_grows rfl (Trace.grows_perform s.trace (Due.message text hn))

theorem enter_grows {n : Node} (hn : scope n) :
    s.trace.Grows (Due scope) (s.enter ctx n).trace :=
  record_grows rfl (Trace.grows_perform s.trace (Due.enter hn))

theorem leave_grows {n : Node} (hn : scope n) (result : Value) :
    s.trace.Grows (Due scope) (s.leave ctx n result).trace :=
  record_grows rfl (Trace.grows_perform s.trace (Due.exit result hn))

/-- An evaluation that came to a value made only recordings that are due. -/
theorem course_grows (h : Course ctx scope s t) : s.trace.Grows (Due scope) t.trace := by
  induction h with
  | done s => exact .refl s.trace
  | move first _ ih => exact (move_grows first).trans ih
  | within rule _ _ inner rest => exact inner.trans rest
  | bracket value hn _ _ inner rest =>
    exact ((enter_grows hn).trans inner).trans ((leave_grows hn value).trans rest)

/-- So did one that was cut off. -/
theorem cut_grows {e : Error} (h : Cut ctx scope e s t) : s.trace.Grows (Due scope) t.trace := by
  induction h with
  | abort s hn he => exact record_grows rfl (Trace.grows_perform s.trace (Due.error _ hn))
  | after first _ ih => exact (course_grows first).trans ih
  | within rule _ inner => exact inner
  | bracket hn _ inner => exact ((enter_grows hn).trans inner).trans (leave_grows hn _)

end Eval

/-! ## Runs -/

namespace Evaluator

variable {σ : Type} (e : Evaluator) (host : Host σ) (root : Node) (world : σ)

/-- The trace of an evaluation grows from an empty one, by recordings at nodes of the tree. -/
theorem run_grows : e.trace.reset.Grows (Eval.Due (· ∈ root.nodes))
    (e.run host root world).evaluator.trace := by
  let ctx : EvalContext σ := ⟨host, e.settings, root.ruleTable⟩
  have hstart : e.trace.reset.Grows (Eval.Due (· ∈ root.nodes)) (e.start ctx world).trace :=
    Eval.record_grows rfl (Trace.grows_perform _ (Eval.Due.heading "evaluation"))
  have hnode : Eval.Leads ctx (· ∈ root.nodes) (e.start ctx world) (e.outcome host root world) :=
    Eval.node_runs (Eval.closed_nodes host e.settings root) _ root.mem_nodes_self _
  rw [run_eq]
  generalize e.outcome host root world = outcome at hnode
  cases outcome with
  | ok value s => exact hstart.trans (Eval.course_grows hnode)
  | error err s => exact hstart.trans (Eval.cut_grows hnode)

/-- The entries of the trace of an evaluation are linked. -/
theorem run_linked : (e.run host root world).evaluator.trace.Linked :=
  (e.run_grows host root world).keeps (Trace.linked_ofSettings _) fun _ r _ h => h.perform r

/-- Each entry of the trace of an evaluation was due at a node of the tree. -/
theorem exists_due_of_mem_trace {entry : TraceEntry}
    (h : entry ∈ (e.run host root world).evaluator.trace.toList) :
    ∃ r, Eval.Due (· ∈ root.nodes) r ∧ entry.event = r.event ∧ entry.node = r.node :=
  (e.run_grows host root world).exists_due (Window.toList_empty) h

/-- An evaluation keeps the settings of the trace. -/
theorem settings_trace_run :
    (e.run host root world).evaluator.trace.settings = e.trace.settings :=
  (e.run_grows host root world).settings_eq

@[simp] theorem settings_run : (e.run host root world).evaluator.settings = e.settings := by
  rw [run_eq]
  split <;> rfl

end Evaluator

end Rulebook
