import Rulebook.Proofs.Evaluation.Folding
import Rulebook.Proofs.Evaluation.Related

/-!
# Noting calls changes nothing

An evaluation depends on its host only through what the services answer. On a host that gives the
same answers and keeps more in its state, the evaluation does the same, down to the trace.

## Main definitions

* `EvalState.view`: a state as it looks if only a part of the host's state is seen

## Main results

* `Eval.view_keeps`: on hosts that give the same answers, the moves of evaluations look the same
* `Eval.node_view`: evaluations on hosts that give the same answers do the same
* `Evaluator.run_eq_recorded`: a host that notes the calls of its services changes nothing else
-/

namespace Rulebook

variable {σ τ : Type}

/-! ## States -/

/-- The state, as far as it can be seen from a part of the host's state. -/
def EvalState.view (f : τ → σ) (t : EvalState τ) : EvalState σ :=
  ⟨f t.world, t.trace, t.stats, t.depth, t.active, t.faults, t.marks⟩

namespace Eval

section View

variable {f : τ → σ} {host : Host σ} {host' : Host τ} {settings : EvalSettings}
  {rules : Dict Node}

theorem record_view {s : EvalState σ} {t : EvalState τ} (h : s = t.view f) (g : Trace → Trace) :
    s.record ⟨host, settings, rules⟩ g = (t.record ⟨host', settings, rules⟩ g).view f := by
  subst h
  simp only [EvalState.record]
  split <;> rfl

/-- On hosts that give the same answers, moves lead from states that look the same to such states
again. -/
theorem view_keeps (hhost : host.IsBisim host' fun w v => f v = w) :
    Keeps ⟨host, settings, rules⟩ ⟨host', settings, rules⟩ Eq
      fun (s : EvalState σ) (t : EvalState τ) => s = t.view f where
  golf := rfl
  maxDepth := rfl
  active := by
    rintro _ t rfl
    rfl
  activate := by
    rintro _ t rfl active
    rfl
  read := by
    rintro _ t rfl name
    obtain ⟨hvalue, hworld⟩ := hhost.read name (rfl : f t.world = f t.world)
    refine ⟨hvalue, ?_⟩
    simp only [EvalState.view, hworld]
  perform := by
    rintro _ t rfl n _ rfl c c' haction hkind
    obtain ⟨hresponse, hworld⟩ := hhost.perform c.action c.kind (rfl : f t.world = f t.world)
    refine ⟨hresponse, ?_⟩
    simp only [EvalState.performed, haction, hkind, hresponse]
    exact record_view (by simp only [EvalState.view, hworld]) _
  assigned := by
    rintro _ t rfl n _ rfl name value
    obtain ⟨hold, hworld⟩ := hhost.store name value (rfl : f t.world = f t.world)
    simp only [EvalState.assigned, hold]
    exact record_view (by simp only [EvalState.view, hworld]) _
  decided := by
    rintro _ t rfl n _ c _ rfl rfl value
    exact record_view (by rfl) _
  activated := by
    rintro _ t rfl n _ rfl head head' hname
    simp only [EvalState.activated, hname]
    exact record_view (by rfl) _
  failed := by
    rintro _ t rfl n _ rfl fault
    have herror : (t.view f).record ⟨host, settings, rules⟩ (·.error (some n.id) fault) =
        (t.record ⟨host', settings, rules⟩ (·.error (some n.id) fault)).view f :=
      record_view (by rfl) _
    exact congrArg (fun s : EvalState σ => { s with faults := s.faults.push fault }) herror
  error := by
    rintro _ t rfl n _ rfl fault
    exact record_view (by rfl) _
  remark := by
    rintro _ t rfl n _ rfl text
    exact record_view (by rfl) _
  enter := by
    rintro _ t rfl n _ rfl
    exact record_view (by rfl) _
  leave := by
    rintro _ t rfl n _ rfl value
    exact record_view (by rfl) _

/-- Evaluations on hosts that give the same answers do the same. -/
theorem node_view (hhost : host.IsBisim host' fun w v => f v = w) (levels : Nat) (n : Node) :
    Related (fun (s : EvalState σ) (t : EvalState τ) => s = t.view f)
      (node ⟨host, settings, rules⟩ levels n) (node ⟨host', settings, rules⟩ levels n) :=
  (view_keeps hhost).node_self rfl levels n

end View

end Eval

/-! ## Runs -/

namespace Evaluator

/-- **Noting the calls of services changes nothing else.** On a host that notes the calls an
evaluation comes to the same value, evaluator and tree, and to the same state of the host below. -/
theorem run_eq_recorded (e : Evaluator) (host : Host σ) (root : Node) (world : σ) :
    let r := e.run host.recorded root (world, [])
    e.run host root world = ⟨r.value, r.evaluator, r.world.1, r.tree⟩ := by
  let ctx : EvalContext σ := ⟨host, e.settings, root.ruleTable⟩
  let ctx' : EvalContext (σ × List HostCall) := ⟨host.recorded, e.settings, root.ruleTable⟩
  have hstart : e.start ctx world = (e.start ctx' (world, [])).view Prod.fst :=
    Eval.record_view (by rfl) _
  have houtcome : Eval.Matching
      (fun (s : EvalState σ) (t : EvalState (σ × List HostCall)) => s = t.view Prod.fst)
      (e.outcome host root world) (e.outcome host.recorded root (world, [])) :=
    Eval.node_view host.recorded_isBisim _ root _ _ hstart
  simp only [run_eq]
  generalize e.outcome host root world = r, e.outcome host.recorded root (world, []) = r'
    at houtcome
  cases houtcome with
  | ok value h =>
    rw [h]
    rfl
  | error err h =>
    rw [h]
    rfl

end Evaluator

end Rulebook
