import Rulebook.Explanation
import Rulebook.Host

/-!
# The state of an evaluation

## Main definitions

* `EvalSettings`: the depth that may be reached, and what is recorded
* `EvalStats`: counters of one evaluation
* `EvalState`: the host's state, the trace, the counters, the faults and the marks of an
  evaluation that is under way
* `Eval`: computations on this state that may end the whole evaluation with an error
-/

namespace Rulebook

/-- How trees are evaluated. -/
structure EvalSettings where
  /-- How many evaluations of nodes may be nested. -/
  maxDepth : Nat := 256
  /-- Whether any chain stops at a first part that is not true. -/
  golf : Bool := false
  /-- Whether a trace is kept. A question makes it kept in any case. -/
  trace : Bool := true
  traceLimit : Option Nat := none
  /-- What is explained after each evaluation. -/
  question : Option Question := none
  deriving DecidableEq

namespace EvalSettings

/-- The settings of golf mode. -/
def golfed : EvalSettings := { golf := true }

/-- Whether a trace is kept. -/
def traces (s : EvalSettings) : Bool :=
  s.trace || s.question.isSome

/-- The settings of the trace. -/
def traceSettings (s : EvalSettings) : TraceSettings :=
  ⟨s.golf, s.traceLimit⟩

end EvalSettings

/-- Counters of one evaluation. -/
structure EvalStats where
  nodes : Nat := 0
  decisions : Nat := 0
  consequences : Nat := 0
  activations : Nat := 0
  maxDepth : Nat := 0
  deriving DecidableEq

/-- What an evaluation notes about the nodes of the tree: which consequences ran, and how often
each rule was activated. It is noted by identity, so nodes that share one are marked together; what
is said of single nodes holds of trees whose identities are distinct. -/
structure Marks where
  executed : Std.TreeMap Nat Unit := ∅
  activations : Std.TreeMap Nat Nat := ∅

namespace Marks

/-- Whether a consequence ran. -/
def isExecuted (m : Marks) (id : NodeId) : Bool :=
  m.executed.contains id.number

/-- How often a rule was activated. -/
def count (m : Marks) (id : NodeId) : Nat :=
  m.activations[id.number]?.getD 0

/-- Notes that a consequence ran. -/
def execute (m : Marks) (id : NodeId) : Marks :=
  { m with executed := m.executed.insert id.number () }

/-- Notes that a rule was activated once more. -/
def activate (m : Marks) (id : NodeId) : Marks :=
  { m with activations := m.activations.insert id.number (m.count id + 1) }

end Marks

/-- The state of an evaluation. `depth` evaluations of nodes are under way, and `active` are the
rules among them, the innermost first. -/
structure EvalState (σ : Type) where
  world : σ
  trace : Trace
  stats : EvalStats := {}
  depth : Nat := 0
  active : List String := []
  faults : Array Fault := #[]
  marks : Marks := {}

/-- A computation on the state of an evaluation. An error ends the evaluation; the state that it
leaves is kept. -/
abbrev Eval (σ : Type) := EStateM Error (EvalState σ)

/-- What an evaluation is given: the host, the settings, and the rules of the tree by name. -/
structure EvalContext (σ : Type) where
  host : Host σ
  settings : EvalSettings
  rules : Dict Node

namespace EvalState

variable {σ : Type}

/-- Changes the trace, if one is kept. -/
def record (ctx : EvalContext σ) (f : Trace → Trace) (s : EvalState σ) : EvalState σ :=
  if ctx.settings.traces then { s with trace := f s.trace } else s

/-- The evaluation of a node begins. -/
def enter (ctx : EvalContext σ) (n : Node) (s : EvalState σ) : EvalState σ :=
  { s with
    depth := s.depth + 1
    stats :=
      { s.stats with
        nodes := s.stats.nodes + 1
        maxDepth := max s.stats.maxDepth (s.depth + 1) } }.record ctx (·.enter n)

/-- The evaluation of a node ends with a result. -/
def leave (ctx : EvalContext σ) (n : Node) (result : Value) (s : EvalState σ) : EvalState σ :=
  { s with depth := s.depth - 1 }.record ctx (·.exit n result)

end EvalState

end Rulebook
