import Rulebook.Evaluation.State

/-!
# Evaluating a node

What goes wrong with values becomes a fault, which is itself a value and passes through the tree.
Nesting too deeply, and running a rule within itself, end the whole evaluation.

## Main definitions

* `Eval.fail`: a fault, recorded at a node
* `Eval.step`: the value of a node, given how its children are evaluated
* `Eval.node`: the value of a node
-/

namespace Rulebook

namespace Eval

variable {σ : Type} (ctx : EvalContext σ)

/-! ## Parts of a step -/

section Parts

/-- Changes the trace, if one is kept. -/
def record (f : Trace → Trace) : Eval σ Unit :=
  modify (EvalState.record ctx f)

/-- Changes the counters. -/
def countUp (f : EvalStats → EvalStats) : Eval σ Unit :=
  modify fun s => { s with stats := f s.stats }

/-- Changes the marks. -/
def mark (f : Marks → Marks) : Eval σ Unit :=
  modify fun s => { s with marks := f s.marks }

/-- A fault, recorded and traced at a node. -/
def fail (n : Node) (kind : ErrorKind) (message : String) : Eval σ Value := do
  let fault : Fault := ⟨kind, message⟩
  record ctx (·.error (some n.id) fault)
  modify fun s => { s with faults := s.faults.push fault }
  return .fault fault

/-- Ends the evaluation with an error, traced at a node. -/
def abort {α : Type} (n : Node) (e : Error) : Eval σ α := do
  record ctx (·.error (some n.id) (.ofError e))
  throw e

/-- Reads a variable. -/
def read (name : String) : Eval σ Value :=
  modifyGet fun s =>
    let (value, world) := ctx.host.read name s.world
    (value, { s with world })

/-- Stores a variable. -/
def store (name : String) (value : Value) : Eval σ (Option Value) :=
  modifyGet fun s =>
    let (old, world) := ctx.host.store name value s.world
    (old, { s with world })

/-- Performs a consequence. -/
def perform (action : String) (kind : ConsequenceKind) : Eval σ Response :=
  modifyGet fun s =>
    let (response, world) := ctx.host.perform action kind s.world
    (response, { s with world })

/-- Runs `body` while a rule counts as active. -/
def within {α : Type} (rule : String) (body : Eval σ α) : Eval σ α := fun s =>
  match body { s with active := rule :: s.active } with
  | .ok a s' => .ok a { s' with active := s'.active.tail }
  | .error e s' => .error e { s' with active := s'.active.tail }

/-- Runs `body` as the evaluation of a node, which is traced from its beginning to its end,
however it ends. -/
def bracket (n : Node) (body : Eval σ Value) : Eval σ Value := fun s =>
  match body (s.enter ctx n) with
  | .ok v s' => .ok v (s'.leave ctx n v)
  | .error e s' => .error e (s'.leave ctx n (.fault (.ofError e)))

end Parts

/-! ## The variants of a node -/

section Variants

variable (run : Node → Eval σ Value) (n : Node)

/-- A decision evaluates its condition, then the branch that this leads to. An absent branch has
the truth of the condition as value. -/
def decision (condition yes no : Option Node) : Eval σ Value :=
  match condition with
  | none => fail ctx n .invalidState "decision without condition"
  | some condition => do
    let value ← run condition
    let taken := value.isTruthy
    countUp fun stats => { stats with decisions := stats.decisions + 1 }
    record ctx fun t => (t.condition condition value).decision n (Branch.ofBool taken)
    match if taken then yes else no with
    | some branch => run branch
    | none => return .bool taken

/-- An assignment stores the value of its first generic child, unless that is a fault. -/
def assignment (name : String) : Eval σ Value :=
  match n.children with
  | [] => fail ctx n .invalidState "assignment without value"
  | expr :: _ => do
    let value ← run expr
    -- A fault is passed on, and the variable keeps its value.
    if value.isFault then return value
    let old ← store ctx name value
    mark (·.execute n.id)
    record ctx (·.change n name old value)
    return .outcome ⟨name, .assign, true, value, none⟩

/-- A consequence is performed by the host. -/
def consequence (c : Consequence) : Eval σ Value := do
  let response ← perform ctx c.action c.kind
  mark (·.execute n.id)
  countUp fun stats => { stats with consequences := stats.consequences + 1 }
  let outcome : Outcome Value :=
    ⟨c.action, c.kind, response.success, response.value, response.message⟩
  record ctx (·.consequence n outcome)
  return .outcome outcome

/-- A rule evaluates its body, unless it is inactive. It must not be running already. -/
def rule (head : RuleHead) (body : Option Node) : Eval σ Value := do
  if !head.isActive then
    record ctx (·.message (some n.id) ("rule " ++ head.name ++ " is inactive"))
    return .bool false
  if (← get).active.contains head.name then
    abort ctx n (.ruleLoop head.name)
  mark (·.activate n.id)
  let count := (← get).marks.count n.id
  countUp fun stats => { stats with activations := stats.activations + 1 }
  record ctx (·.activation n head.name count)
  within head.name
    (match body with
    | some body => run body
    | none => return .void)

/-- A logic operator evaluates its second operand only if the first does not decide. A fault is
its own value. -/
def logic (op : LogicOp) (left right : Option Node) : Eval σ Value :=
  match left with
  | none => fail ctx n .invalidState "logic operator without operand"
  | some left => do
    let l ← run left
    if l.isFault then return l
    let decided :=
      match op with
      | .not => true
      | .and => !l.isTruthy
      | .or => l.isTruthy
    if decided then return .bool (if op = .not then !l.isTruthy else l.isTruthy)
    match right with
    | none => fail ctx n .invalidState "logic operator without right operand"
    | some right =>
      let r ← run right
      if r.isFault then return r
      return .bool r.isTruthy

/-- A comparison of values that have no common order is a fault. -/
def comparison (op : CompareOp) (left right : Option Node) : Eval σ Value :=
  match left, right with
  | some left, some right => do
    let l ← run left
    if l.isFault then return l
    let r ← run right
    if r.isFault then return r
    match op.apply l r with
    | some result => return .bool result
    | none =>
      let fault := operandFault op.symbol l r
      fail ctx n fault.kind fault.message
  | _, _ => fail ctx n .invalidState "comparison without operands"

/-- The value of a chain whose parts have been evaluated. A sequential chain is true if both
parts are, and then has the value of the second; a parallel one if either is, and then has the
value of the first that is. -/
def chainValue (order : ChainOrder) (head tail : Value) : Value :=
  match order with
  | .sequential => if head.isTruthy && tail.isTruthy then tail else .bool false
  | .parallel => if head.isTruthy then head else if tail.isTruthy then tail else .bool false

/-- A chain evaluates both parts, except that in golf mode a first part that is not true ends
it. -/
def chain (order : ChainOrder) (first second : Option Node) : Eval σ Value :=
  match first, second with
  | some first, some second => do
    let head ← run first
    if head.isFault then return head
    if ctx.settings.golf && !head.isTruthy then
      record ctx (·.message (some n.id) "golf chain stopped at falsy first operand")
      return .bool false
    let tail ← run second
    if tail.isFault then return tail
    return chainValue order head tail
  | _, _ => fail ctx n .invalidState "chain without operands"

/-- The value of an operator, or its fault recorded at the node. -/
def settle (result : Except Fault Value) : Eval σ Value :=
  match result with
  | .ok value => return value
  | .error fault => fail ctx n fault.kind fault.message

/-- An arithmetic operation evaluates its operands from the left; a sign change has only one. -/
def arithmetic (op : ArithOp) (left right : Option Node) : Eval σ Value :=
  match left with
  | none => fail ctx n .invalidState "arithmetic without operand"
  | some left => do
    let l ← run left
    if l.isFault then return l
    if op = .neg then
      settle ctx n (op.apply l none)
    else
      match right with
      | none => fail ctx n .invalidState "binary arithmetic without right operand"
      | some right =>
        let r ← run right
        if r.isFault then return r
        settle ctx n (op.apply l (some r))

/-- Whether a statement with this value ends its block: a fault does, and so does the outcome of
any consequence but an assignment. -/
def settles (value : Value) : Bool :=
  value.isFault || value.outcome?.any (·.kind != .assign)

/-- A block evaluates its statements up to the first that ends it, and has the value of the last
one evaluated. -/
def block (last : Value) : List Node → Eval σ Value
  | [] => return last
  | statement :: rest => do
    let value ← run statement
    if settles value then return value
    block value rest

end Variants

/-- The value of a node, given how its children and the rules it calls are evaluated. -/
def step (run : Node → Eval σ Value) (n : Node) : Eval σ Value :=
  match n.kind with
  | .decision condition yes no => decision ctx run n condition yes no
  | .consequence c =>
    if c.kind = .assign then assignment ctx run n c.action else consequence ctx n c
  | .rule head body => rule ctx run n head body
  | .logic op left right => logic ctx run n op left right
  | .comparison op left right => comparison ctx run n op left right
  | .identifier name => read ctx name
  | .literal l => return l.value
  | .chain order first second => chain ctx run n order first second
  | .arithmetic op left right => arithmetic ctx run n op left right
  | .block => block run .void n.children
  | .ruleCall name =>
    match ctx.rules.find? name with
    | some rule => run rule
    | none => fail ctx n .invalidState ("unknown rule '" ++ name ++ "'")
  | .extension tag =>
    fail ctx n .unsupported ("extension node '" ++ tag ++ "' cannot be evaluated")

/-- The value of a node when the given number of evaluations may still be nested. -/
def node : Nat → Node → Eval σ Value
  | 0, n => abort ctx n (.tooDeep "evaluator" ctx.settings.maxDepth)
  | levels + 1, n => bracket ctx n (step ctx (node levels) n)

end Eval

end Rulebook
