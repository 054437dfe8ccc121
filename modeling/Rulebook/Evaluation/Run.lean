import Rulebook.Evaluation.Step
import Rulebook.Node.Rebuild

/-!
# Evaluating a tree

## Main definitions

* `Evaluator`: settings, and what the last evaluation left
* `Evaluator.run`: evaluates a tree
* `Evaluator.Returns`: the explanation at the end of an evaluation is found
-/

namespace Rulebook

/-- Settings, with the trace, counters, faults and explanation of the last evaluation. -/
structure Evaluator where
  settings : EvalSettings
  trace : Trace
  stats : EvalStats := {}
  faults : Array Fault := #[]
  explanation : Option String := none

namespace Evaluator

/-- An evaluator that has evaluated nothing yet. -/
def ofSettings (settings : EvalSettings) : Evaluator :=
  { settings, trace := .ofSettings settings.traceSettings }

/-- Asks for another explanation, or none, from the next evaluation on. -/
def withQuestion (e : Evaluator) (question : Option Question) : Evaluator :=
  { e with settings := { e.settings with question } }

/-- Whether the last evaluation met a fault. -/
def hadFault (e : Evaluator) : Bool :=
  !e.faults.isEmpty

/-- What an evaluation comes to: the value, the evaluator and the host's state after it, and the
tree with its consequences flagged and its rules counted. -/
structure Result (σ : Type) where
  value : Value
  evaluator : Evaluator
  world : σ
  tree : Node

variable {σ : Type}

/-- The explanation that the settings ask for, if it can be given. -/
def answer (settings : EvalSettings) (root : Node) (trace : Trace) : Option String :=
  settings.question.bind fun question => (explain root trace question).toOption

/-- What is left when the evaluation of a tree has ended with a value. -/
def finish (e : Evaluator) (root : Node) (value : Value) (s : EvalState σ) : Result σ :=
  { value
    evaluator :=
      { e with
        trace := s.trace
        stats := s.stats
        faults := s.faults
        explanation := answer e.settings root s.trace }
    world := s.world
    tree := root.withMarks s.marks.isExecuted s.marks.count }

/-- The state at the start of an evaluation. Nothing of the last one is left in it. -/
def start (e : Evaluator) (ctx : EvalContext σ) (world : σ) : EvalState σ :=
  { world, trace := e.trace.reset : EvalState σ }.record ctx (·.heading "evaluation")

/-- Evaluates a tree. An error that ends the evaluation becomes its value and its last fault. What
is explained comes last; see `Evaluator.Returns`. -/
def run (e : Evaluator) (host : Host σ) (root : Node) (world : σ) : Result σ :=
  let ctx : EvalContext σ := ⟨host, e.settings, root.ruleTable⟩
  match Eval.node ctx e.settings.maxDepth root (e.start ctx world) with
  | .ok value s => e.finish root value s
  -- What was done before the error stays done.
  | .error err s =>
    let fault := Fault.ofError err
    e.finish root (.fault fault) { s with faults := s.faults.push fault }

/-- An evaluation returns: the explanation that the settings ask for is found in finitely many
steps. All else has come to an end before. -/
def Returns (e : Evaluator) (host : Host σ) (root : Node) (world : σ) : Prop :=
  ∀ question, e.settings.question = some question →
    Explanation.Ends root (e.run host root world).evaluator.trace question

end Evaluator

end Rulebook
