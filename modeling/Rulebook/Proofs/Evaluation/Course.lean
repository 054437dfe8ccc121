import Rulebook.Evaluation.Run
import Rulebook.Node.Check

/-!
# The course of an evaluation

Whatever an evaluation does to its state is made of a few moves, of brackets around the evaluation
of a node, and of stretches in which a rule counts as active. An evaluation that ends with an
error was cut off somewhere inside these. What holds of every course holds of every evaluation.

## Main definitions

* `EvalState.failed` to `EvalState.activated`: the states after single moves
* `Eval.Cause`, `Eval.Ending`: why there is a fault at a node, and why an evaluation ends at it
* `Eval.Move`: the moves, with the nodes that they are about
* `Eval.Course`: what an evaluation does that comes to a value
* `Eval.Cut`: what an evaluation does that ends with an error

## Main results

* `Eval.node_runs`: an evaluation that comes to a value has a course, any other one is cut off
-/

namespace Rulebook

variable {σ : Type}

/-! ## States after single moves -/

namespace EvalState

section Record

variable (ctx : EvalContext σ) (f : Trace → Trace) (s : EvalState σ)

@[simp] theorem record_world : (s.record ctx f).world = s.world := by
  rw [record]; split <;> rfl

@[simp] theorem record_stats : (s.record ctx f).stats = s.stats := by
  rw [record]; split <;> rfl

@[simp] theorem record_depth : (s.record ctx f).depth = s.depth := by
  rw [record]; split <;> rfl

@[simp] theorem record_active : (s.record ctx f).active = s.active := by
  rw [record]; split <;> rfl

@[simp] theorem record_faults : (s.record ctx f).faults = s.faults := by
  rw [record]; split <;> rfl

@[simp] theorem record_marks : (s.record ctx f).marks = s.marks := by
  rw [record]; split <;> rfl

theorem record_trace :
    (s.record ctx f).trace = if ctx.settings.traces then f s.trace else s.trace := by
  rw [record]; split <;> rfl

end Record

variable (ctx : EvalContext σ) (n : Node) (s : EvalState σ)

/-- After a fault at a node. -/
def failed (fault : Fault) : EvalState σ :=
  let s := s.record ctx (·.error (some n.id) fault)
  { s with faults := s.faults.push fault }

/-- After the condition of a decision had a value. -/
def decided (condition : Node) (value : Value) : EvalState σ :=
  { s with stats := { s.stats with decisions := s.stats.decisions + 1 } }.record ctx
    fun t => (t.condition condition value).decision n (Branch.ofBool value.isTruthy)

/-- After a value was assigned. -/
def assigned (name : String) (value : Value) : EvalState σ :=
  let (old, world) := ctx.host.store name value s.world
  { s with world, marks := s.marks.execute n.id }.record ctx (·.change n name old value)

/-- After a consequence was performed. -/
def performed (c : Consequence) : EvalState σ :=
  let (response, world) := ctx.host.perform c.action c.kind s.world
  { s with
    world
    marks := s.marks.execute n.id
    stats := { s.stats with consequences := s.stats.consequences + 1 } }.record ctx
      (·.consequence n ⟨c.action, c.kind, response.success, response.value, response.message⟩)

/-- After the activation of a rule. -/
def activated (head : RuleHead) : EvalState σ :=
  let marks := s.marks.activate n.id
  { s with
    marks
    stats := { s.stats with activations := s.stats.activations + 1 } }.record ctx
      (·.activation n head.name (marks.count n.id))

end EvalState

namespace Eval

/-! ## Faults and errors -/

section Causes

variable (ctx : EvalContext σ) (n : Node)

/-- Why there is a fault at a node. -/
inductive Cause : Fault → Prop where
  /-- The node lacks a part that checked trees have. -/
  | lacking (message : String) (h : n.partDefect? ≠ none) : Cause ⟨.invalidState, message⟩
  /-- The node calls a rule that there is not. -/
  | unknownRule {name : String} (hk : n.kind = .ruleCall name) (h : ctx.rules.find? name = none) :
      Cause ⟨.invalidState, "unknown rule '" ++ name ++ "'"⟩
  /-- The node is an operation, and its operands have values that it is not for. -/
  | operands {fault : Fault} (h : fault.kind = .type ∨ fault.kind = .arithmetic) : Cause fault
  /-- The node is for other tools. -/
  | extension {tag : String} (hk : n.kind = .extension tag) :
      Cause ⟨.unsupported, "extension node '" ++ tag ++ "' cannot be evaluated"⟩

/-- Why an evaluation ends at a node. -/
inductive Ending : Error → Prop where
  /-- The node is nested too deeply. -/
  | ceiling : Ending (.tooDeep "evaluator" ctx.settings.maxDepth)
  /-- The node is a rule that is running already. -/
  | loop {head : RuleHead} {body : Option Node} (hk : n.kind = .rule head body) :
      Ending (.ruleLoop head.name)

theorem Ending.kind {e : Error} (h : Ending ctx n e) : e.kind = .recursion := by
  cases h <;> rfl

end Causes

/-! ## Moves and courses -/

section Courses

variable (ctx : EvalContext σ) (scope : Node → Prop)

/-- What an evaluation does to its state at once, at a node in scope. -/
inductive Move : EvalState σ → EvalState σ → Prop where
  | read {n : Node} {name : String} (s : EvalState σ) (hn : scope n)
      (hk : n.kind = .identifier name) :
      Move s { s with world := (ctx.host.read name s.world).2 }
  | fail {n : Node} {fault : Fault} (s : EvalState σ) (hn : scope n) (hf : Cause ctx n fault) :
      Move s (s.failed ctx n fault)
  | decide {n c : Node} {yes no : Option Node} (value : Value) (s : EvalState σ) (hn : scope n)
      (hk : n.kind = .decision (some c) yes no) :
      Move s (s.decided ctx n c value)
  | assign {n : Node} {c : Consequence} (value : Value) (s : EvalState σ) (hn : scope n)
      (hk : n.kind = .consequence c) (hc : c.kind = .assign) :
      Move s (s.assigned ctx n c.action value)
  | perform {n : Node} {c : Consequence} (s : EvalState σ) (hn : scope n)
      (hk : n.kind = .consequence c) (hc : c.kind ≠ .assign) :
      Move s (s.performed ctx n c)
  | activate {n : Node} {head : RuleHead} {body : Option Node} (s : EvalState σ) (hn : scope n)
      (hk : n.kind = .rule head body) :
      Move s (s.activated ctx n head)
  | remark {n : Node} (text : String) (s : EvalState σ) (hn : scope n) :
      Move s (s.record ctx (·.message (some n.id) text))

/-- What an evaluation does to its state that comes to a value. -/
inductive Course : EvalState σ → EvalState σ → Prop where
  | done (s : EvalState σ) : Course s s
  | move {s t u : EvalState σ} (first : Move ctx scope s t) (rest : Course t u) : Course s u
  | within {s t u : EvalState σ} (rule : String)
      (inner : Course { s with active := rule :: s.active } t)
      (rest : Course { t with active := t.active.tail } u) : Course s u
  | bracket {s t u : EvalState σ} {n : Node} (value : Value) (hn : scope n)
      (inner : Course (s.enter ctx n) t) (rest : Course (t.leave ctx n value) u) :
      Course s u

/-- What an evaluation does to its state that ends with an error. -/
inductive Cut (e : Error) : EvalState σ → EvalState σ → Prop where
  | abort {n : Node} (s : EvalState σ) (hn : scope n) (he : Ending ctx n e) :
      Cut e s (s.record ctx (·.error (some n.id) (.ofError e)))
  | after {s t u : EvalState σ} (first : Course ctx scope s t) (rest : Cut e t u) : Cut e s u
  | within {s t : EvalState σ} (rule : String)
      (inner : Cut e { s with active := rule :: s.active } t) :
      Cut e s { t with active := t.active.tail }
  | bracket {s t : EvalState σ} {n : Node} (hn : scope n) (inner : Cut e (s.enter ctx n) t) :
      Cut e s (t.leave ctx n (.fault (.ofError e)))

end Courses

variable {ctx : EvalContext σ} {scope : Node → Prop} {s t u : EvalState σ}

theorem Course.trans (h : Course ctx scope s t) (h' : Course ctx scope t u) :
    Course ctx scope s u := by
  induction h with
  | done => exact h'
  | move first _ ih => exact .move first (ih h')
  | within rule inner _ _ ih => exact .within rule inner (ih h')
  | bracket value hn inner _ _ ih => exact .bracket value hn inner (ih h')

theorem Move.course (h : Move ctx scope s t) : Course ctx scope s t :=
  .move h (.done t)

/-- What was done from a state on: a course that led to a value, or one that was cut off. -/
def Leads (ctx : EvalContext σ) (scope : Node → Prop) (s : EvalState σ) {α : Type} :
    EStateM.Result Error (EvalState σ) α → Prop
  | .ok _ t => Course ctx scope s t
  | .error e t => Cut ctx scope e s t

/-- A computation follows a course if it comes to a value, and is cut off if it does not. -/
def Runs (ctx : EvalContext σ) (scope : Node → Prop) {α : Type} (x : Eval σ α) : Prop :=
  ∀ s, Leads ctx scope s (EStateM.run x s)

/-! ## Computations -/

section Computations

variable {α β : Type} {n : Node}

theorem Runs.pure (a : α) : Runs ctx scope (pure a : Eval σ α) :=
  fun s => .done s

theorem Course.leads {r : EStateM.Result Error (EvalState σ) α} (h : Course ctx scope s t)
    (hr : Leads ctx scope t r) : Leads ctx scope s r := by
  cases r with
  | ok a u => exact h.trans hr
  | error e u => exact .after h hr

theorem Runs.bind {x : Eval σ α} {f : α → Eval σ β} (hx : Runs ctx scope x)
    (hf : ∀ a, Runs ctx scope (f a)) : Runs ctx scope (x >>= f) := by
  intro s
  have h := hx s
  rw [EStateM.run_bind]
  -- Behind an error nothing is done any more.
  cases hs : EStateM.run x s with
  | ok a t => rw [hs] at h; exact h.leads (hf a t)
  | error e t => rwa [hs] at h

theorem Runs.ite {c : Prop} [Decidable c] {x y : Eval σ α} (hx : Runs ctx scope x)
    (hy : Runs ctx scope y) : Runs ctx scope (if c then x else y) := by
  split
  · exact hx
  · exact hy

/-- What stands behind an abort is not reached, but is a computation of the same shape. -/
theorem Runs.unless {c : Prop} [Decidable c] {x : Eval σ β} {y : Eval σ α}
    (hx : Runs ctx scope x) (hy : Runs ctx scope y) :
    Runs ctx scope (if c then x >>= fun _ => y else y) :=
  .ite (hx.bind fun _ => hy) hy

/-- A move in front of a computation. -/
theorem Runs.move {f : EvalState σ → EvalState σ} {x : Eval σ β}
    (hf : ∀ s, Move ctx scope s (f s)) (hx : Runs ctx scope x) :
    Runs ctx scope (modify f >>= fun _ => x) :=
  Runs.bind (fun s => (hf s).course) fun _ => hx

theorem fail_runs (hn : scope n) {kind : ErrorKind} {message : String}
    (hf : Cause ctx n ⟨kind, message⟩) : Runs ctx scope (fail ctx n kind message : Eval σ Value) :=
  fun s => (Move.fail s hn hf).course

theorem abort_runs (hn : scope n) {e : Error} (he : Ending ctx n e) :
    Runs ctx scope (abort ctx n e : Eval σ α) :=
  fun s => .abort s hn he

theorem within_runs (rule : String) {x : Eval σ α} (hx : Runs ctx scope x) :
    Runs ctx scope (within rule x) := by
  intro s
  have h := hx { s with active := rule :: s.active }
  simp only [EStateM.run, within] at h ⊢
  cases hs : x { s with active := rule :: s.active } with
  | ok a t => rw [hs] at h; exact .within rule h (.done _)
  | error e t => rw [hs] at h; exact .within rule h

theorem bracket_runs (hn : scope n) {x : Eval σ Value} (hx : Runs ctx scope x) :
    Runs ctx scope (bracket ctx n x) := by
  intro s
  have h := hx (s.enter ctx n)
  simp only [EStateM.run, bracket] at h ⊢
  cases hs : x (s.enter ctx n) with
  | ok v t => rw [hs] at h; exact .bracket v hn h (.done _)
  | error e t => rw [hs] at h; exact .bracket hn h

end Computations

/-! ## The variants of a node -/

section Variants

variable {run : Node → Eval σ Value} {n : Node}

theorem decision_runs {condition yes no : Option Node} (hn : scope n)
    (hk : n.kind = .decision condition yes no)
    (hrun : ∀ c, some c ∈ n.kind.slots → Runs ctx scope (run c)) :
    Runs ctx scope (decision ctx run n condition yes no) := by
  rw [hk] at hrun
  cases condition with
  | none => exact fail_runs hn (.lacking _ (by simp [Node.partDefect?, hk]))
  | some c =>
    refine (hrun c (by simp [Kind.slots])).bind fun value => ?_
    refine Runs.move (f := fun s => s.decided ctx n c value) (fun s => .decide value s hn hk) ?_
    split
    · next branch h =>
      refine hrun branch ?_
      split at h <;> simp [Kind.slots, h]
    · exact .pure _

theorem assignment_runs {c : Consequence} (hn : scope n) (hk : n.kind = .consequence c)
    (hc : c.kind = .assign) (hrun : ∀ m ∈ n.children, Runs ctx scope (run m)) :
    Runs ctx scope (assignment ctx run n c.action) := by
  rw [assignment]
  split
  · next h =>
    refine fail_runs hn (.lacking _ ?_)
    simp only [Node.partDefect?, hk]
    split
    · simp
    · split
      · simp
      · simp [hc, h]
  · next expr rest h =>
    refine (hrun expr (by simp [h])).bind fun value => .ite (.pure _) ?_
    exact Runs.move (f := fun s => s.assigned ctx n c.action value)
      (fun s => .assign value s hn hk hc) (.pure _)

theorem consequence_runs {c : Consequence} (hn : scope n) (hk : n.kind = .consequence c)
    (hc : c.kind ≠ .assign) : Runs ctx scope (consequence ctx n c) :=
  fun s => (Move.perform s hn hk hc).course

theorem rule_runs {head : RuleHead} {body : Option Node} (hn : scope n)
    (hk : n.kind = .rule head body)
    (hrun : ∀ c, some c ∈ n.kind.slots → Runs ctx scope (run c)) :
    Runs ctx scope (rule ctx run n head body) := by
  rw [hk] at hrun
  unfold rule
  refine .ite (.move (fun s => .remark _ s hn) (.pure _)) ?_
  refine Runs.bind (fun s => .done s) fun s => .unless (abort_runs hn (.loop hk)) ?_
  show Runs ctx scope
    (modify (EvalState.activated ctx n · head) >>= fun _ => within head.name _)
  refine .move (fun s => .activate s hn hk) (within_runs _ ?_)
  cases body with
  | none => exact .pure _
  | some body => exact hrun body (by simp [Kind.slots])

theorem logic_runs {op : LogicOp} {left right : Option Node} (hn : scope n)
    (hk : n.kind = .logic op left right)
    (hrun : ∀ c, some c ∈ n.kind.slots → Runs ctx scope (run c)) :
    Runs ctx scope (logic ctx run n op left right) := by
  rw [hk] at hrun
  cases left with
  | none => exact fail_runs hn (.lacking _ (by simp [Node.partDefect?, hk]))
  | some left =>
    refine (hrun left (by simp [Kind.slots])).bind fun l => .ite (.pure _) ?_
    by_cases hop : op = .not
    · -- A negation is decided by its operand.
      subst hop
      exact .pure _
    refine .ite (.pure _) ?_
    cases right with
    | none =>
      refine fail_runs hn (.lacking _ ?_)
      cases op <;> simp_all [Node.partDefect?]
    | some right =>
      exact (hrun right (by simp [Kind.slots])).bind fun r => .ite (.pure _) (.pure _)

theorem comparison_runs {op : CompareOp} {left right : Option Node} (hn : scope n)
    (hk : n.kind = .comparison op left right)
    (hrun : ∀ c, some c ∈ n.kind.slots → Runs ctx scope (run c)) :
    Runs ctx scope (comparison ctx run n op left right) := by
  rw [hk] at hrun
  cases left with
  | none => exact fail_runs hn (.lacking _ (by simp [Node.partDefect?, hk]))
  | some left =>
    cases right with
    | none => exact fail_runs hn (.lacking _ (by simp [Node.partDefect?, hk]))
    | some right =>
      refine (hrun left (by simp [Kind.slots])).bind fun l => .ite (.pure _) ?_
      refine (hrun right (by simp [Kind.slots])).bind fun r => .ite (.pure _) ?_
      split
      · exact .pure _
      · exact fail_runs hn (.operands (.inl rfl))

theorem chain_runs {order : ChainOrder} {first second : Option Node} (hn : scope n)
    (hk : n.kind = .chain order first second)
    (hrun : ∀ c, some c ∈ n.kind.slots → Runs ctx scope (run c)) :
    Runs ctx scope (chain ctx run n order first second) := by
  rw [hk] at hrun
  cases first with
  | none => exact fail_runs hn (.lacking _ (by simp [Node.partDefect?, hk]))
  | some first =>
    cases second with
    | none => exact fail_runs hn (.lacking _ (by simp [Node.partDefect?, hk]))
    | some second =>
      refine (hrun first (by simp [Kind.slots])).bind fun head => .ite (.pure _) ?_
      refine .ite (.move (fun s => .remark _ s hn) (.pure _)) ?_
      exact (hrun second (by simp [Kind.slots])).bind fun tail => .ite (.pure _) (.pure _)

theorem kind_of_onNumbers {op : ArithOp} {x y : Float} {fault : Fault}
    (h : op.onNumbers x y = .error fault) : fault.kind = .arithmetic := by
  cases op with
  | add | sub | mul | neg => cases h
  | div | mod =>
    simp only [ArithOp.onNumbers] at h
    split at h
    · cases h; rfl
    · cases h

/-- The faults of operators are about the types or the values of their operands. -/
theorem kind_of_apply {op : ArithOp} {left : Value} {right : Option Value} {fault : Fault}
    (h : op.apply left right = .error fault) :
    fault.kind = .type ∨ fault.kind = .arithmetic := by
  unfold ArithOp.apply at h
  split at h
  · cases h
  · cases h; exact .inl rfl
  · cases h
  · exact .inr (kind_of_onNumbers h)
  · cases h; exact .inl rfl
  · cases h; exact .inl rfl

theorem settle_runs (hn : scope n) (op : ArithOp) (left : Value) (right : Option Value) :
    Runs ctx scope (settle ctx n (op.apply left right) : Eval σ Value) := by
  cases h : op.apply left right with
  | ok value => exact .pure value
  | error fault => exact fail_runs hn (.operands (kind_of_apply h))

theorem arithmetic_runs {op : ArithOp} {left right : Option Node} (hn : scope n)
    (hk : n.kind = .arithmetic op left right)
    (hrun : ∀ c, some c ∈ n.kind.slots → Runs ctx scope (run c)) :
    Runs ctx scope (arithmetic ctx run n op left right) := by
  rw [hk] at hrun
  cases left with
  | none => exact fail_runs hn (.lacking _ (by simp [Node.partDefect?, hk]))
  | some left =>
    refine (hrun left (by simp [Kind.slots])).bind fun l => .ite (.pure _) ?_
    split
    · exact settle_runs hn _ _ _
    next hop =>
    cases right with
    | none => exact fail_runs hn (.lacking _ (by simp [Node.partDefect?, hk, hop]))
    | some right =>
      exact (hrun right (by simp [Kind.slots])).bind fun r =>
        .ite (.pure _) (settle_runs hn _ _ _)

theorem block_runs {statements : List Node} (hrun : ∀ m ∈ statements, Runs ctx scope (run m))
    (last : Value) : Runs ctx scope (block run last statements) := by
  induction statements generalizing last with
  | nil => exact .pure last
  | cons statement rest ih =>
    refine (hrun statement List.mem_cons_self).bind fun value => .ite (.pure _) ?_
    exact ih (fun m hm => hrun m (List.mem_cons_of_mem _ hm)) value

end Variants

/-! ## Evaluations -/

/-- Nodes among which an evaluation stays: with a node its children are among them, and so are
the rules that can be called. -/
structure Closed (ctx : EvalContext σ) (scope : Node → Prop) : Prop where
  children : ∀ {n c : Node}, scope n → c ∈ n.childNodes → scope c
  rules : ∀ {name : String} {rule : Node}, ctx.rules.find? name = some rule → scope rule

theorem step_runs (hscope : Closed ctx scope) {run : Node → Eval σ Value}
    (hrun : ∀ n, scope n → Runs ctx scope (run n)) {n : Node} (hn : scope n) :
    Runs ctx scope (step ctx run n) := by
  -- Besides rules that are called, only children of the node are evaluated.
  have slots : ∀ c, some c ∈ n.kind.slots → Runs ctx scope (run c) := fun c hc =>
    hrun c (hscope.children hn (List.mem_append_left _ (List.mem_filterMap.2 ⟨some c, hc, rfl⟩)))
  have children : ∀ c ∈ n.children, Runs ctx scope (run c) := fun c hc =>
    hrun c (hscope.children hn (List.mem_append_right _ hc))
  rw [step]
  split
  · next hk => exact decision_runs hn hk slots
  · next c hk =>
    split
    · next hc => exact assignment_runs hn hk hc children
    · next hc => exact consequence_runs hn hk hc
  · next hk => exact rule_runs hn hk slots
  · next hk => exact logic_runs hn hk slots
  · next hk => exact comparison_runs hn hk slots
  · next hk => exact fun s => (Move.read s hn hk).course
  · exact .pure _
  · next hk => exact chain_runs hn hk slots
  · next hk => exact arithmetic_runs hn hk slots
  · exact block_runs children _
  · next name hk =>
    split
    · next rule hrule => exact hrun rule (hscope.rules hrule)
    · next hrule => exact fail_runs hn (.unknownRule hk hrule)
  · next hk => exact fail_runs hn (.extension hk)

/-- An evaluation that comes to a value has a course, and any other one is cut off. -/
theorem node_runs (hscope : Closed ctx scope) (levels : Nat) {n : Node} (hn : scope n) :
    Runs ctx scope (node ctx levels n) := by
  -- Induction on the levels below the ceiling, since a rule that is called is no part of the node.
  induction levels generalizing n with
  | zero => exact abort_runs hn .ceiling
  | succ levels ih => exact bracket_runs hn (step_runs hscope (fun m hm => ih hm) hn)

end Eval

end Rulebook
