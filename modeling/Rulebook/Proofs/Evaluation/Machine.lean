import Mathlib.Logic.Function.Iterate
import Rulebook.Proofs.Evaluation.Related
import Rulebook.Proofs.Evaluation.Tallies

/-!
# Evaluating one action at a time

An evaluation is a function from a state to a state, and says nothing of the states between. To
say what is done after some moment, the same evaluation is carried out by a machine. It works on
the plan of a node, an action at a time, and keeps a stack of the evaluations that wait for the
value of the node it works on. The machine goes through the states that the evaluation goes
through, and ends with its result.

## Main definitions

* `Eval.Act`: what is done at once at a node
* `Eval.Plan`: what is left to do at a node, where the values of other nodes are asked for
* `Eval.Machine`, `Eval.Machine.next`: the machine, and its single steps
* `Evaluator.machine`: the machine after some steps of the evaluation of a tree

## Main results

* `Eval.Plan.toEval_ofNode`: the plan of a node is its step
* `Eval.reaches_node`: the machine comes to the result of the evaluation of a node
* `Evaluator.exists_machine_eq`: it ends with the outcome of the evaluation of a tree
-/

namespace Rulebook

namespace Eval

variable {σ : Type}

/-! ## Actions -/

/-- What is done at once. No action is a terminal error: those end the plan that they are in. -/
inductive Act where
  | read (name : String)
  | fail (n : Node) (fault : Fault) (h : fault.kind ≠ .recursion)
  | decide (n c : Node) (value : Value)
  | assign (n : Node) (name : String) (value : Value)
  | perform (n : Node) (c : Consequence)
  | activate (n : Node) (head : RuleHead)
  | remark (n : Node) (text : String)

/-- The value of an action, and the state after it. -/
def Act.apply (ctx : EvalContext σ) (s : EvalState σ) : Act → Value × EvalState σ
  | read name =>
    let (value, world) := ctx.host.read name s.world
    (value, { s with world })
  | fail n fault _ => (.fault fault, s.failed ctx n fault)
  | decide n c value => (value, s.decided ctx n c value)
  | assign n name value =>
    (.outcome ⟨name, .assign, true, value, none⟩, s.assigned ctx n name value)
  | perform n c => (c.outcome (ctx.host.perform c.action c.kind s.world).1, s.performed ctx n c)
  | activate n head => (.void, s.activated ctx n head)
  | remark n text => (.bool false, s.record ctx (·.message (some n.id) text))

@[simp] theorem Act.depth_apply (ctx : EvalContext σ) (s : EvalState σ) (a : Act) :
    (a.apply ctx s).2.depth = s.depth := by
  cases a <;> simp [apply, EvalState.failed, EvalState.decided, EvalState.assigned,
    EvalState.performed, EvalState.activated]

/-! ## Plans -/

/-- What is left to do at a node, which comes to a value by actions and by the values of other
nodes. -/
inductive Plan where
  | done (value : Value)
  | act (a : Act) (rest : Value → Plan)
  | eval (m : Node) (rest : Value → Plan)
  /-- Ends with an error at the node if the rule is running already. -/
  | unlessRunning (rule : String) (n : Node) (rest : Plan)
  /-- Has the value of a node, which is evaluated while the rule counts as active. -/
  | under (rule : String) (m : Node)

namespace Plan

section Variants

variable (n : Node)

/-- The plan to fail at a node, though not with a terminal error. -/
def fail (fault : Fault) (h : fault.kind ≠ .recursion) : Plan :=
  .act (.fail n fault h) .done

/-- The plan of a node that lacks a part, or calls a rule that there is not. -/
def invalid (message : String) : Plan :=
  fail n ⟨.invalidState, message⟩ (by simp)

/-- The plan of a part that may be absent. -/
def part (value : Value) : Option Node → Plan
  | some m => .eval m .done
  | none => .done value

/-- The value that a plan goes on with, unless it is a fault, which is passed on. -/
def unlessFault (value : Value) (rest : Plan) : Plan :=
  if value.isFault then .done value else rest

def decision (condition yes no : Option Node) : Plan :=
  match condition with
  | none => invalid n "decision without condition"
  | some c =>
    .eval c fun value => .act (.decide n c value) fun _ =>
      part (.bool value.isTruthy) (if value.isTruthy then yes else no)

def assignment (name : String) : Plan :=
  match n.children with
  | [] => invalid n "assignment without value"
  | expr :: _ => .eval expr fun value => unlessFault value (.act (.assign n name value) .done)

def rule (head : RuleHead) (body : Option Node) : Plan :=
  if !head.isActive then
    .act (.remark n ("rule " ++ head.name ++ " is inactive")) .done
  else
    .unlessRunning head.name n (.act (.activate n head) fun _ =>
      match body with
      | some body => .under head.name body
      | none => .done .void)

def logic (op : LogicOp) (left right : Option Node) : Plan :=
  match left with
  | none => invalid n "logic operator without operand"
  | some left =>
    .eval left fun l => unlessFault l <|
      let decided :=
        match op with
        | .not => true
        | .and => !l.isTruthy
        | .or => l.isTruthy
      if decided then .done (.bool (if op = .not then !l.isTruthy else l.isTruthy))
      else
        match right with
        | none => invalid n "logic operator without right operand"
        | some right => .eval right fun r => unlessFault r (.done (.bool r.isTruthy))

/-- The plan once an operator was applied, to fail if it has no value. -/
def settle (result : Except Fault Value) (h : ∀ fault, result = .error fault →
    fault.kind ≠ .recursion) : Plan :=
  match result, h with
  | .ok value, _ => .done value
  | .error fault, h => fail n fault (h fault rfl)

/-- The result of a comparison. -/
def compared (op : CompareOp) (l r : Value) : Plan :=
  match op.apply l r with
  | some result => .done (.bool result)
  | none => fail n (operandFault op.symbol l r) (by simp [operandFault])

def comparison (op : CompareOp) (left right : Option Node) : Plan :=
  match left, right with
  | some left, some right =>
    .eval left fun l => unlessFault l <| .eval right fun r => unlessFault r (compared n op l r)
  | _, _ => invalid n "comparison without operands"

def chain (golf : Bool) (order : ChainOrder) (first second : Option Node) : Plan :=
  match first, second with
  | some first, some second =>
    .eval first fun head => unlessFault head <|
      if golf && !head.isTruthy then
        .act (.remark n "golf chain stopped at falsy first operand") .done
      else .eval second fun tail => unlessFault tail (.done (chainValue order head tail))
  | _, _ => invalid n "chain without operands"

/-- The faults of operators are no terminal errors. -/
theorem kind_ne_of_apply (op : ArithOp) (l : Value) (r : Option Value) (fault : Fault)
    (h : op.apply l r = .error fault) : fault.kind ≠ .recursion := by
  rcases kind_of_apply h with h | h <;> simp [h]

def arithmetic (op : ArithOp) (left right : Option Node) : Plan :=
  match left with
  | none => invalid n "arithmetic without operand"
  | some left =>
    .eval left fun l => unlessFault l <|
      if op = .neg then settle n (op.apply l none) (kind_ne_of_apply op l none)
      else
        match right with
        | none => invalid n "binary arithmetic without right operand"
        | some right =>
          .eval right fun r => unlessFault r <|
            settle n (op.apply l (some r)) (kind_ne_of_apply op l (some r))

end Variants

/-- The plan of a block, given the value of the statement before. -/
def block (last : Value) : List Node → Plan
  | [] => .done last
  | statement :: rest =>
    .eval statement fun value => if settles value then .done value else block value rest

/-- The plan of a node. -/
def ofNode (ctx : EvalContext σ) (n : Node) : Plan :=
  match n.kind with
  | .decision condition yes no => decision n condition yes no
  | .consequence c => if c.kind = .assign then assignment n c.action else .act (.perform n c) .done
  | .rule head body => rule n head body
  | .logic op left right => logic n op left right
  | .comparison op left right => comparison n op left right
  | .identifier name => .act (.read name) .done
  | .literal l => .done l.value
  | .chain order first second => chain n ctx.settings.golf order first second
  | .arithmetic op left right => arithmetic n op left right
  | .block => block .void n.children
  | .ruleCall name =>
    match ctx.rules.find? name with
    | some rule => .eval rule .done
    | none => invalid n ("unknown rule '" ++ name ++ "'")
  | .extension tag =>
    fail n ⟨.unsupported, "extension node '" ++ tag ++ "' cannot be evaluated"⟩ (by simp)

/-! ### Plans as computations -/

/-- A plan as a computation, given how nodes are evaluated. -/
def toEval (ctx : EvalContext σ) (run : Node → Eval σ Value) : Plan → Eval σ Value
  | done value => pure value
  | act a rest => do
    let value ← modifyGet (a.apply ctx ·)
    (rest value).toEval ctx run
  | eval m rest => do
    let value ← run m
    (rest value).toEval ctx run
  | .unlessRunning rule n rest => Eval.unlessRunning ctx n rule (rest.toEval ctx run)
  | under rule m => within rule (run m)

variable (ctx : EvalContext σ) (run : Node → Eval σ Value) (n : Node)

theorem toEval_ite {c : Prop} [Decidable c] (p q : Plan) :
    (if c then p else q).toEval ctx run = if c then p.toEval ctx run else q.toEval ctx run :=
  apply_ite (toEval ctx run) c p q

theorem toEval_unlessFault (value : Value) (rest : Plan) :
    (unlessFault value rest).toEval ctx run =
      if value.isFault then pure value else rest.toEval ctx run :=
  toEval_ite ctx run _ _

theorem toEval_part (value : Value) (o : Option Node) :
    (part value o).toEval ctx run = o.elim (pure value) run := by
  cases o with
  | none => rfl
  | some m => exact bind_pure (run m)

theorem toEval_settle (result : Except Fault Value) (h : ∀ fault, result = .error fault →
    fault.kind ≠ .recursion) : (settle n result h).toEval ctx run = Eval.settle ctx n result := by
  cases result <;> rfl

theorem toEval_decision (condition yes no : Option Node) :
    (decision n condition yes no).toEval ctx run = Eval.decision ctx run n condition yes no := by
  cases condition with
  | none => rfl
  | some c =>
    rw [decision_some]
    refine bind_congr fun value => ?_
    exact bind_congr (x := modify (EvalState.decided ctx n · c value)) fun _ =>
      toEval_part ctx run _ _

theorem toEval_assignment (name : String) :
    (assignment n name).toEval ctx run = Eval.assignment ctx run n name := by
  unfold assignment
  split
  · next h => rw [Eval.assignment, h]; rfl
  · next expr rest h =>
    rw [assignment_cons _ _ _ h]
    exact bind_congr fun value => toEval_unlessFault ctx run value _

theorem toEval_rule (head : RuleHead) (body : Option Node) :
    (rule n head body).toEval ctx run = Eval.rule ctx run n head body := by
  rw [rule_eq]
  unfold rule
  split
  · rfl
  · cases body <;> rfl

theorem toEval_logic (op : LogicOp) (left right : Option Node) :
    (logic n op left right).toEval ctx run = Eval.logic ctx run n op left right := by
  cases left with
  | none => rfl
  | some left =>
    refine bind_congr fun l => ?_
    rw [toEval_unlessFault, toEval_ite]
    refine ite_congr rfl (fun _ => rfl) fun _ => ite_congr rfl (fun _ => rfl) fun _ => ?_
    cases right with
    | none => rfl
    | some right => exact bind_congr fun r => toEval_unlessFault ctx run r _

theorem toEval_comparison (op : CompareOp) (left right : Option Node) :
    (comparison n op left right).toEval ctx run = Eval.comparison ctx run n op left right := by
  cases left with
  | none => rfl
  | some left =>
    cases right with
    | none => rfl
    | some right =>
      refine bind_congr fun l => ?_
      rw [toEval_unlessFault]
      refine ite_congr rfl (fun _ => rfl) fun _ => bind_congr fun r => ?_
      rw [toEval_unlessFault]
      refine ite_congr rfl (fun _ => rfl) fun _ => ?_
      unfold compared
      cases op.apply l r <;> rfl

theorem toEval_chain (order : ChainOrder) (first second : Option Node) :
    (chain n ctx.settings.golf order first second).toEval ctx run =
      Eval.chain ctx run n order first second := by
  cases first with
  | none => rfl
  | some first =>
    cases second with
    | none => rfl
    | some second =>
      refine bind_congr fun head => ?_
      rw [toEval_unlessFault, toEval_ite]
      refine ite_congr rfl (fun _ => rfl) fun _ => ite_congr rfl (fun _ => rfl) fun _ => ?_
      exact bind_congr fun tail => toEval_unlessFault ctx run tail _

theorem toEval_arithmetic (op : ArithOp) (left right : Option Node) :
    (arithmetic n op left right).toEval ctx run = Eval.arithmetic ctx run n op left right := by
  cases left with
  | none => rfl
  | some left =>
    refine bind_congr fun l => ?_
    rw [toEval_unlessFault, toEval_ite, toEval_settle]
    refine ite_congr rfl (fun _ => rfl) fun _ => ite_congr rfl (fun _ => rfl) fun _ => ?_
    cases right with
    | none => rfl
    | some right =>
      refine bind_congr fun r => ?_
      rw [toEval_unlessFault, toEval_settle]

theorem toEval_block (statements : List Node) (last : Value) :
    (block last statements).toEval ctx run = Eval.block run last statements := by
  induction statements generalizing last with
  | nil => rfl
  | cons statement rest ih =>
    refine bind_congr fun value => ?_
    exact (toEval_ite ctx run _ _).trans (ite_congr rfl (fun _ => rfl) fun _ => ih value)

/-- The plan of a node is its step. -/
theorem toEval_ofNode : (ofNode ctx n).toEval ctx run = step ctx run n := by
  unfold ofNode step
  cases n.kind with
  | decision condition yes no => exact toEval_decision ctx run n condition yes no
  | consequence c =>
    dsimp only
    split
    · exact toEval_assignment ctx run n c.action
    · rfl
  | rule head body => exact toEval_rule ctx run n head body
  | logic op left right => exact toEval_logic ctx run n op left right
  | comparison op left right => exact toEval_comparison ctx run n op left right
  | chain order first second => exact toEval_chain ctx run n order first second
  | arithmetic op left right => exact toEval_arithmetic ctx run n op left right
  | block => exact toEval_block ctx run n.children .void
  | ruleCall name =>
    dsimp only
    cases ctx.rules.find? name with
    | none => rfl
    | some rule => exact bind_pure (run rule)
  | identifier name => rfl
  | literal l => rfl
  | extension tag => rfl

end Plan

/-! ## The machine -/

/-- What the machine works on: it begins with a node, or follows a plan, or an error ended all. -/
inductive Focus where
  | eval (n : Node)
  | plan (p : Plan)
  | error (e : Error)

/-- What waits for the value of the node that the machine works on. -/
inductive Pending where
  /-- The evaluation of a node ends with the value. -/
  | bracket (n : Node)
  /-- The innermost rule is active no longer. -/
  | within
  /-- The plan of the node around goes on. -/
  | resume (rest : Value → Plan)

/-- A moment of an evaluation. What waits is listed with the innermost first. -/
structure Machine (σ : Type) where
  focus : Focus
  pending : List Pending
  state : EvalState σ

namespace Machine

variable (ctx : EvalContext σ)

/-- An error ends the evaluation at a node. -/
def abort (n : Node) (e : Error) (pending : List Pending) (s : EvalState σ) : Machine σ :=
  ⟨.error e, pending, s.record ctx (·.error (some n.id) (.ofError e))⟩

/-- A single step. A machine that waits for nothing and has a value or an error has come to its
end, and stays as it is. -/
def next : Machine σ → Machine σ
  | ⟨.eval n, pending, s⟩ =>
    if ctx.settings.maxDepth ≤ s.depth then
      abort ctx n (.tooDeep "evaluator" ctx.settings.maxDepth) pending s
    else ⟨.plan (.ofNode ctx n), .bracket n :: pending, s.enter ctx n⟩
  | ⟨.plan (.act a rest), pending, s⟩ =>
    ⟨.plan (rest (a.apply ctx s).1), pending, (a.apply ctx s).2⟩
  | ⟨.plan (.eval m rest), pending, s⟩ => ⟨.eval m, .resume rest :: pending, s⟩
  | ⟨.plan (.unlessRunning rule n rest), pending, s⟩ =>
    if s.active.contains rule then abort ctx n (.ruleLoop rule) pending s
    else ⟨.plan rest, pending, s⟩
  | ⟨.plan (.under rule m), pending, s⟩ =>
    ⟨.eval m, .within :: pending, { s with active := rule :: s.active }⟩
  | ⟨.plan (.done v), .bracket n :: pending, s⟩ => ⟨.plan (.done v), pending, s.leave ctx n v⟩
  | ⟨.plan (.done v), .within :: pending, s⟩ =>
    ⟨.plan (.done v), pending, { s with active := s.active.tail }⟩
  | ⟨.plan (.done v), .resume rest :: pending, s⟩ => ⟨.plan (rest v), pending, s⟩
  -- An error passes what waits, and only ends what was begun.
  | ⟨.error e, .bracket n :: pending, s⟩ =>
    ⟨.error e, pending, s.leave ctx n (.fault (.ofError e))⟩
  | ⟨.error e, .within :: pending, s⟩ =>
    ⟨.error e, pending, { s with active := s.active.tail }⟩
  | ⟨.error e, .resume _ :: pending, s⟩ => ⟨.error e, pending, s⟩
  | ⟨.plan (.done v), [], s⟩ => ⟨.plan (.done v), [], s⟩
  | ⟨.error e, [], s⟩ => ⟨.error e, [], s⟩

/-- The machine that has come to the result of an evaluation, in front of what waits for it. -/
def ofResult (pending : List Pending) : EStateM.Result Error (EvalState σ) Value → Machine σ
  | .ok v s => ⟨.plan (.done v), pending, s⟩
  | .error e s => ⟨.error e, pending, s⟩

theorem next_ofResult (r : EStateM.Result Error (EvalState σ) Value) :
    next ctx (ofResult [] r) = ofResult [] r := by
  cases r <;> rfl

/-- An error is never taken back. -/
theorem focus_iterate_error (e : Error) (pending : List Pending) (s : EvalState σ) (k : Nat) :
    ((next ctx)^[k] ⟨.error e, pending, s⟩).focus = .error e := by
  induction k generalizing pending s with
  | zero => rfl
  | succ k ih =>
    rw [Function.iterate_succ_apply]
    cases pending with
    | nil => exact ih [] s
    | cons first pending => cases first <;> exact ih pending _

/-- The machine comes from one moment to another. -/
def Reaches (m m' : Machine σ) : Prop :=
  ∃ k, (next ctx)^[k] m = m'

variable {ctx} {m m' m'' : Machine σ}

theorem Reaches.refl (m : Machine σ) : Reaches ctx m m :=
  ⟨0, rfl⟩

theorem Reaches.trans (h : Reaches ctx m m') (h' : Reaches ctx m' m'') : Reaches ctx m m'' := by
  obtain ⟨k, rfl⟩ := h
  obtain ⟨l, rfl⟩ := h'
  exact ⟨l + k, Function.iterate_add_apply _ _ _ _⟩

/-- A step in front. -/
theorem Reaches.head (h : Reaches ctx (next ctx m) m') : Reaches ctx m m' :=
  Reaches.trans ⟨1, rfl⟩ h

theorem Reaches.single (h : next ctx m = m') : Reaches ctx m m' :=
  ⟨1, h⟩

end Machine

/-! ## The machine and the evaluation -/

section Agreement

open Machine (Reaches ofResult)

variable {ctx : EvalContext σ} {levels : Nat}

theorem depth_of_run {n : Node} {s t : EvalState σ} {v : Value}
    (h : EStateM.run (node ctx levels n) s = .ok v t) : t.depth = s.depth := by
  have hruns : Leads ctx (fun _ => True) s (EStateM.run (node ctx levels n) s) :=
    node_runs closed_all levels trivial s
  rw [h] at hruns
  exact course_depth hruns

theorem depth_enter (n : Node) (s : EvalState σ) : (s.enter ctx n).depth = s.depth + 1 := by
  simp [EvalState.enter]

theorem run_unlessRunning (rule : String) (n : Node) (x : Eval σ Value) (s : EvalState σ) :
    EStateM.run (unlessRunning ctx n rule x) s =
      if s.active.contains rule then
        .error (.ruleLoop rule) (s.record ctx (·.error (some n.id) (.ofError (.ruleLoop rule))))
      else EStateM.run x s := by
  show EStateM.run (if s.active.contains rule then abort ctx n (.ruleLoop rule) else x) s = _
  split <;> rfl

/-- The machine comes to the result of a plan, if it comes to those of nodes. -/
theorem reaches_plan
    (hnode : ∀ n pending s, s.depth + levels = ctx.settings.maxDepth →
      Reaches ctx ⟨.eval n, pending, s⟩ (ofResult pending (EStateM.run (node ctx levels n) s)))
    (p : Plan) (pending : List Pending) (s : EvalState σ)
    (hs : s.depth + levels = ctx.settings.maxDepth) :
    Reaches ctx ⟨.plan p, pending, s⟩
      (ofResult pending (EStateM.run (p.toEval ctx (node ctx levels)) s)) := by
  -- Induction on the plan: an action is one step, a node is evaluated while the rest waits.
  induction p generalizing s with
  | done value => exact .refl _
  | act a rest ih => exact .head (ih _ _ (by rwa [a.depth_apply]))
  | eval m rest ih =>
    have hm := hnode m (.resume rest :: pending) s hs
    rw [Plan.toEval, EStateM.run_bind]
    refine .head (hm.trans ?_)
    cases hr : EStateM.run (node ctx levels m) s with
    | ok v t => exact .head (ih v t (by rwa [depth_of_run hr]))
    | error e t =>
      -- The rest of the plan is passed over.
      exact .single rfl
  | unlessRunning rule n rest ih =>
    refine .head ?_
    rw [Machine.next, Plan.toEval, run_unlessRunning]
    split
    · exact .refl _
    · exact ih s hs
  | under rule m =>
    have hm := hnode m (.within :: pending) { s with active := rule :: s.active } hs
    refine .head (hm.trans ?_)
    simp only [Plan.toEval, EStateM.run, within]
    cases node ctx levels m { s with active := rule :: s.active } with
    | ok v t => exact .single rfl
    | error e t => exact .single rfl

/-- The machine comes to the result of the evaluation of a node, as long as the levels left and
those below add up to the ceiling. -/
theorem reaches_node (levels : Nat) (n : Node) (pending : List Pending) (s : EvalState σ)
    (hs : s.depth + levels = ctx.settings.maxDepth) :
    Reaches ctx ⟨.eval n, pending, s⟩ (ofResult pending (EStateM.run (node ctx levels n) s)) := by
  -- Induction on the levels. Without one left the depth is at the ceiling, and both stop there.
  induction levels generalizing n pending s with
  | zero =>
    refine .single ?_
    rw [Machine.next, if_pos (by omega)]
    rfl
  | succ levels ih =>
    have hplan := reaches_plan ih (.ofNode ctx n) (.bracket n :: pending) (s.enter ctx n)
      (by rw [depth_enter]; omega)
    rw [Plan.toEval_ofNode] at hplan
    refine .head ?_
    rw [Machine.next, if_neg (by omega)]
    refine hplan.trans ?_
    simp only [node, bracket, EStateM.run]
    cases step ctx (node ctx levels) n (s.enter ctx n) with
    | ok v t => exact .single rfl
    | error e t => exact .single rfl

end Agreement

end Eval

/-! ## Evaluations of trees -/

namespace Evaluator

variable {σ : Type} (e : Evaluator) (host : Host σ) (root : Node) (world : σ)

/-- The machine after some steps of the evaluation of a tree. -/
def machine (steps : Nat) : Eval.Machine σ :=
  let ctx : EvalContext σ := ⟨host, e.settings, root.ruleTable⟩
  (Eval.Machine.next ctx)^[steps] ⟨.eval root, [], e.start ctx world⟩

theorem machine_add (steps more : Nat) : e.machine host root world (steps + more) =
    (Eval.Machine.next ⟨host, e.settings, root.ruleTable⟩)^[more]
      (e.machine host root world steps) := by
  rw [Nat.add_comm, machine, Function.iterate_add_apply]
  rfl

/-- The machine ends with the outcome of the evaluation, and then stays as it is. -/
theorem exists_machine_eq : ∃ steps, ∀ later ≥ steps,
    e.machine host root world later = Eval.Machine.ofResult [] (e.outcome host root world) := by
  let ctx : EvalContext σ := ⟨host, e.settings, root.ruleTable⟩
  have hdepth : (e.start ctx world).depth = 0 := EvalState.record_depth _ _ _
  obtain ⟨steps, hsteps⟩ : Eval.Machine.Reaches ctx ⟨.eval root, [], e.start ctx world⟩
      (Eval.Machine.ofResult [] (e.outcome host root world)) :=
    Eval.reaches_node e.settings.maxDepth root [] _ (by rw [hdepth]; exact Nat.zero_add _)
  refine ⟨steps, fun later hlater => ?_⟩
  obtain ⟨more, rfl⟩ := Nat.exists_eq_add_of_le' hlater
  rw [machine, Function.iterate_add_apply, hsteps]
  exact Function.iterate_fixed (Eval.Machine.next_ofResult ctx _) more

end Evaluator

end Rulebook
