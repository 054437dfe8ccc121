import Rulebook.Program
import Rulebook.Proofs.Evaluation.Congruence

/-!
# No fault goes unreported

A fault is a value: nodes pass it on, some of them look at it only to go on without it, and an
assignment could store it, to be read again with nothing said about it. None of this hides a fault.
What an evaluation comes to, if it is a fault, is the fault that was recorded last; and the host
never gets one to keep.

Neither holds alone. A variable that held a fault would make one that is not recorded, and a fault
that is not recorded could reach an assignment. So both are carried through the evaluation in one
judgement: from a host's state with some invariant under which it gives out no faults, a computation
comes to such a state again, and to a value that is recorded if it is a fault.

## Main definitions

* `Host.Faultless`: under an invariant a host gives out no faults
* `Eval.Reports`: a computation that keeps the invariant and has recorded its fault

## Main results

* `Eval.node_reports`: the evaluation of every node is of that kind
* `Evaluator.run_reports`: so is the evaluation of a tree, with any host of that kind
* `Evaluator.mem_faults_run`: the case of a host that keeps an environment
-/

namespace Rulebook

variable {σ : Type}

theorem Value.isFault_eq_false_iff {v : Value} : v.isFault = false ↔ ∀ f, v ≠ .fault f := by
  cases v <;> simp [isFault]

/-! ## Hosts that give out no faults -/

/-- As long as its state satisfies `I`, a host gives out no faults, and it keeps to such states if
it gets none. -/
structure Host.Faultless (host : Host σ) (I : σ → Prop) : Prop where
  read : ∀ name w, I w → (host.read name w).1.isFault = false ∧ I (host.read name w).2
  store : ∀ name value w, I w → value.isFault = false → I (host.store name value w).2
  perform : ∀ action kind w, I w → I (host.perform action kind w).2

/-- Responses are not looked at as values, so ready-made ones change nothing. -/
theorem Host.Faultless.scripted {host : Host σ} {I : σ → Prop} (h : host.Faultless I)
    (responses : Dict Response) : (host.scripted responses).Faultless I where
  read := h.read
  store := h.store
  perform action kind w hw := by
    unfold Host.scripted
    dsimp only
    cases responses.find? action with
    | some response => exact hw
    | none => exact h.perform action kind w hw

theorem Host.Faultless.readOnly {host : Host σ} {I : σ → Prop} (h : host.Faultless I) :
    host.readOnly.Faultless I where
  read := h.read
  store _ _ _ hw _ := hw
  perform := h.perform

/-- No variable holds a fault. -/
def Environment.Faultless (env : Environment) : Prop :=
  ∀ name f, env.get? name ≠ some (.fault f)

theorem Environment.Faultless.set {env : Environment} (h : env.Faultless) (name : String)
    {value : Value} (hvalue : value.isFault = false) : (env.set name value).Faultless := by
  intro other f
  show Dict.find? (env.bindings.insert name value) other ≠ some (.fault f)
  rw [Dict.find?_insert]
  split
  · exact fun heq => Value.isFault_eq_false_iff.1 hvalue f (Option.some_inj.1 heq)
  · exact h other f

theorem Environment.faultless_host : Environment.host.Faultless Environment.Faultless where
  read name env h := by
    refine ⟨?_, h⟩
    show ((env.get? name).getD .null).isFault = false
    cases hget : env.get? name with
    | none => rfl
    | some v => exact Value.isFault_eq_false_iff.2 fun f hf => h name f (hf ▸ hget)
  store name value env h hvalue := h.set name hvalue
  perform action kind env h := by
    unfold host
    dsimp only
    -- Only the log of performed actions is changed.
    split
    · exact h
    · exact h

namespace Eval

/-! ## Computations -/

section Computations

/-- What a computation came to: the invariant holds, and if the value is a fault, it is the one
that was recorded last. -/
inductive Reported (I : σ → Prop) : EStateM.Result Error (EvalState σ) Value → Prop where
  | ok {v : Value} {t : EvalState σ} (hworld : I t.world)
      (hlast : ∀ f, v = .fault f → t.faults.back? = some f) : Reported I (.ok v t)
  | error {e : Error} {t : EvalState σ} (hworld : I t.world) : Reported I (.error e t)

/-- A computation that keeps an invariant of the host's state, and has recorded its value if that
is a fault. -/
def Reports (I : σ → Prop) (x : Eval σ Value) : Prop :=
  ∀ s, I s.world → Reported I (EStateM.run x s)

variable {I : σ → Prop}

theorem Reported.of_isFault_eq_false {v : Value} {t : EvalState σ} (hworld : I t.world)
    (hv : v.isFault = false) : Reported I (.ok v t) :=
  .ok hworld fun f hf => absurd hf (Value.isFault_eq_false_iff.1 hv f)

theorem Reports.pure {v : Value} (hv : v.isFault = false) : Reports I (pure v) :=
  fun _ h => .of_isFault_eq_false h hv

/-- What follows need not look at the value, and then it has to report its own faults only. -/
theorem Reports.bind {x : Eval σ Value} {f : Value → Eval σ Value} (hx : Reports I x)
    (hf : ∀ v, Reports I (f v)) : Reports I (x >>= f) := by
  intro s h
  have hs := hx s h
  rw [EStateM.run_bind]
  generalize EStateM.run x s = r at hs
  cases hs with
  | ok hworld _ => exact hf _ _ hworld
  | error hworld => exact .error hworld

/-- A fault is passed on as it is, at once, so it is still the last one. What follows otherwise may
take the value for no fault. -/
theorem Reports.unless {x : Eval σ Value} {stop : Value → Bool} {f : Value → Eval σ Value}
    (hx : Reports I x) (hstop : ∀ v, v.isFault = true → stop v = true)
    (hf : ∀ v, v.isFault = false → Reports I (f v)) :
    Reports I (x >>= fun v => if stop v then Pure.pure v else f v) := by
  intro s h
  have hs := hx s h
  rw [EStateM.run_bind]
  generalize EStateM.run x s = r at hs
  cases hs with
  | @ok v t hworld hlast =>
    dsimp only
    split
    · exact .ok hworld hlast
    · next hgo => exact hf v (by simpa using mt (hstop v) hgo) t hworld
  | error hworld => exact .error hworld

theorem Reports.unlessFault {x : Eval σ Value} {f : Value → Eval σ Value} (hx : Reports I x)
    (hf : ∀ v, v.isFault = false → Reports I (f v)) :
    Reports I (x >>= fun v => if v.isFault then Pure.pure v else f v) :=
  hx.unless (fun _ h => h) hf

theorem Reports.ite {c : Prop} [Decidable c] {x y : Eval σ Value} (hx : Reports I x)
    (hy : Reports I y) : Reports I (if c then x else y) := by
  split
  · exact hx
  · exact hy

/-- A move in front of a computation, if it keeps the invariant. -/
theorem Reports.move {f : EvalState σ → EvalState σ} {x : Eval σ Value}
    (hf : ∀ s, I s.world → I (f s).world) (hx : Reports I x) :
    Reports I (modify f >>= fun _ => x) :=
  fun s h => hx (f s) (hf s h)

theorem Reports.within {x : Eval σ Value} (rule : String) (hx : Reports I x) :
    Reports I (within rule x) := by
  intro s h
  have hs := hx { s with active := rule :: s.active } h
  simp only [EStateM.run, Eval.within] at hs ⊢
  generalize x { s with active := rule :: s.active } = r at hs
  cases hs with
  | ok hworld hlast => exact .ok hworld hlast
  | error hworld => exact .error hworld

variable (ctx : EvalContext σ) (n : Node)

/-- The marks of beginning and end around the evaluation of a node are in the trace only. -/
theorem Reports.bracket {x : Eval σ Value} (hx : Reports I x) : Reports I (bracket ctx n x) := by
  intro s h
  have hs := hx (s.enter ctx n) (by rwa [EvalState.enter, EvalState.record_world])
  simp only [EStateM.run, Eval.bracket] at hs ⊢
  generalize x (s.enter ctx n) = r at hs
  cases hs with
  | ok hworld hlast =>
    refine .ok ?_ fun f hf => ?_
    · rwa [EvalState.leave, EvalState.record_world]
    · rw [EvalState.leave, EvalState.record_faults]
      exact hlast f hf
  | error hworld =>
    refine .error ?_
    rwa [EvalState.leave, EvalState.record_world]

theorem fail_reports (kind : ErrorKind) (message : String) :
    Reports I (fail ctx n kind message) := by
  intro s h
  refine .ok (t := s.failed ctx n ⟨kind, message⟩) ?_ fun f hf => ?_
  · rwa [EvalState.failed, EvalState.record_world]
  · rw [Value.fault.injEq] at hf
    rw [EvalState.failed, Array.back?_push, hf]

theorem abort_reports (e : Error) : Reports I (abort ctx n e) := by
  intro s h
  refine .error (t := s.record ctx (·.error (some n.id) (.ofError e))) ?_
  rwa [EvalState.record_world]

end Computations

/-! ## The variants of a node -/

section Variants

variable {I : σ → Prop} {ctx : EvalContext σ} (hhost : ctx.host.Faultless I)
  {run : Node → Eval σ Value} (hrun : ∀ m, Reports I (run m)) (n : Node)

theorem isFault_chainValue {order : ChainOrder} {head tail : Value} (hhead : head.isFault = false)
    (htail : tail.isFault = false) : (chainValue order head tail).isFault = false := by
  unfold chainValue
  cases order with
  | sequential =>
    dsimp only
    split
    · exact htail
    · rfl
  | parallel =>
    dsimp only
    split
    · exact hhead
    · split
      · exact htail
      · rfl

theorem isFault_of_onNumbers {op : ArithOp} {x y : Float} {v : Value}
    (h : op.onNumbers x y = .ok v) : v.isFault = false := by
  cases op with
  | add | sub | mul | neg => cases h; rfl
  | div | mod =>
    simp only [ArithOp.onNumbers] at h
    split at h
    · cases h
    · cases h; rfl

/-- The values of operators are no faults. -/
theorem isFault_of_apply {op : ArithOp} {left : Value} {right : Option Value} {v : Value}
    (h : op.apply left right = .ok v) : v.isFault = false := by
  unfold ArithOp.apply at h
  split at h
  · cases h; rfl
  · cases h
  · cases h; rfl
  · exact isFault_of_onNumbers h
  · cases h
  · cases h

theorem settle_reports (op : ArithOp) (left : Value) (right : Option Value) :
    Reports I (settle ctx n (op.apply left right)) := by
  cases h : op.apply left right with
  | ok value => exact .pure (isFault_of_apply h)
  | error fault => exact fail_reports ctx n _ _

include hhost in
theorem read_reports (name : String) : Reports I (read ctx name) := by
  intro s h
  obtain ⟨hvalue, hworld⟩ := hhost.read name s.world h
  exact .of_isFault_eq_false (t := { s with world := (ctx.host.read name s.world).2 })
    hworld hvalue

include hhost in
theorem consequence_reports (c : Consequence) : Reports I (consequence ctx n c) := by
  intro s h
  refine .of_isFault_eq_false (t := s.performed ctx n c) ?_ rfl
  rw [EvalState.performed, EvalState.record_world]
  exact hhost.perform c.action c.kind s.world h

include hrun

theorem elim_reports {value : Value} (hvalue : value.isFault = false) (o : Option Node) :
    Reports I (o.elim (pure value) run) := by
  cases o with
  | none => exact .pure hvalue
  | some m => exact hrun m

/-- A decision does not ask whether its condition is a fault. -/
theorem decision_reports (condition yes no : Option Node) :
    Reports I (decision ctx run n condition yes no) := by
  cases condition with
  | none => exact fail_reports ctx n _ _
  | some c =>
    rw [decision_some]
    refine (hrun c).bind fun value => .move (fun s h => ?_) (elim_reports hrun rfl _)
    rwa [EvalState.decided, EvalState.record_world]

include hhost in
/-- An assignment stores no fault. -/
theorem assignment_reports (name : String) : Reports I (assignment ctx run n name) := by
  cases hchildren : n.children with
  | nil =>
    rw [assignment, hchildren]
    exact fail_reports ctx n _ _
  | cons expr rest =>
    rw [assignment_cons _ _ _ hchildren]
    refine (hrun expr).unlessFault fun value hvalue => .move (fun s h => ?_) (.pure rfl)
    rw [EvalState.assigned, EvalState.record_world]
    exact hhost.store name value s.world h hvalue

theorem rule_reports (head : RuleHead) (body : Option Node) :
    Reports I (rule ctx run n head body) := by
  rw [rule_eq]
  refine .ite (.move (fun s h => ?_) (.pure rfl)) fun s h => ?_
  · rwa [EvalState.record_world]
  · have hbody : Reports I (modify (EvalState.activated ctx n · head) >>= fun _ =>
        within head.name (body.elim (pure .void) run)) := by
      refine .move (fun s h => ?_) (.within _ (elim_reports hrun rfl body))
      rwa [EvalState.activated, EvalState.record_world]
    -- Whether the rule is running already depends on the state, and nothing is done to that.
    exact Reports.ite (abort_reports ctx n _) hbody s h

theorem logic_reports (op : LogicOp) (left right : Option Node) :
    Reports I (logic ctx run n op left right) := by
  cases left with
  | none => exact fail_reports ctx n _ _
  | some left =>
    refine (hrun left).unlessFault fun l _ => .ite (.pure rfl) ?_
    cases right with
    | none => exact fail_reports ctx n _ _
    | some right => exact (hrun right).unlessFault fun r _ => .pure rfl

theorem comparison_reports (op : CompareOp) (left right : Option Node) :
    Reports I (comparison ctx run n op left right) := by
  cases left with
  | none => exact fail_reports ctx n _ _
  | some left =>
    cases right with
    | none => exact fail_reports ctx n _ _
    | some right =>
      refine (hrun left).unlessFault fun l _ => (hrun right).unlessFault fun r _ => ?_
      cases op.apply l r with
      | some result => exact .pure rfl
      | none => exact fail_reports ctx n _ _

theorem chain_reports (order : ChainOrder) (first second : Option Node) :
    Reports I (chain ctx run n order first second) := by
  cases first with
  | none => exact fail_reports ctx n _ _
  | some first =>
    cases second with
    | none => exact fail_reports ctx n _ _
    | some second =>
      refine (hrun first).unlessFault fun head hhead => .ite (.move (fun s h => ?_) (.pure rfl)) ?_
      · rwa [EvalState.record_world]
      · exact (hrun second).unlessFault fun tail htail => .pure (isFault_chainValue hhead htail)

theorem arithmetic_reports (op : ArithOp) (left right : Option Node) :
    Reports I (arithmetic ctx run n op left right) := by
  cases left with
  | none => exact fail_reports ctx n _ _
  | some left =>
    refine (hrun left).unlessFault fun l _ => .ite (settle_reports n _ _ _) ?_
    cases right with
    | none => exact fail_reports ctx n _ _
    | some right => exact (hrun right).unlessFault fun r _ => settle_reports n _ _ _

/-- A block has the value of its last statement, and that of an earlier one if it ends there. -/
theorem block_reports (statements : List Node) {last : Value} (hlast : last.isFault = false) :
    Reports I (block run last statements) := by
  induction statements generalizing last with
  | nil => exact .pure hlast
  | cons statement rest ih =>
    exact (hrun statement).unless (fun v hv => by rw [settles, hv, Bool.true_or])
      fun value hvalue => ih hvalue

end Variants

/-! ## Nodes -/

section Nodes

variable {I : σ → Prop} {ctx : EvalContext σ} (hhost : ctx.host.Faultless I)
include hhost

theorem step_reports {run : Node → Eval σ Value} (hrun : ∀ m, Reports I (run m)) (n : Node) :
    Reports I (step ctx run n) := by
  rw [step]
  cases n.kind with
  | decision condition yes no => exact decision_reports hrun n condition yes no
  | consequence c =>
    exact .ite (assignment_reports hhost hrun n c.action) (consequence_reports hhost n c)
  | rule head body => exact rule_reports hrun n head body
  | logic op left right => exact logic_reports hrun n op left right
  | comparison op left right => exact comparison_reports hrun n op left right
  | identifier name => exact read_reports hhost name
  | literal l => exact .pure (by cases l <;> rfl)
  | chain order first second => exact chain_reports hrun n order first second
  | arithmetic op left right => exact arithmetic_reports hrun n op left right
  | block => exact block_reports hrun n.children rfl
  | ruleCall name =>
    dsimp only
    cases ctx.rules.find? name with
    | some rule => exact hrun rule
    | none => exact fail_reports ctx n _ _
  | extension tag => exact fail_reports ctx n _ _

/-- The evaluation of a node has recorded its value if that is a fault, and gives none to the
host. -/
theorem node_reports (levels : Nat) (n : Node) : Reports I (node ctx levels n) := by
  -- Induction on the levels below the ceiling, since a rule that is called is no part of the node.
  induction levels generalizing n with
  | zero => exact abort_reports ctx n _
  | succ levels ih => exact .bracket ctx n (step_reports hhost ih n)

end Nodes

end Eval

namespace Evaluator

/-! ## Evaluations -/

section Run

/-- With a host that gives out no faults, an evaluation leaves the host in such a state again, and
a fault that is its value is the last one recorded. -/
theorem run_reports {host : Host σ} {I : σ → Prop} (hhost : host.Faultless I) (e : Evaluator)
    (root : Node) {world : σ} (hworld : I world) :
    I (e.run host root world).world ∧
      ∀ f, (e.run host root world).value = .fault f →
        (e.run host root world).evaluator.faults.back? = some f := by
  have hstart : I (e.start ⟨host, e.settings, root.ruleTable⟩ world).world := by
    rwa [start, EvalState.record_world]
  have h : Eval.Reported I (Eval.node ⟨host, e.settings, root.ruleTable⟩ e.settings.maxDepth root
      (e.start ⟨host, e.settings, root.ruleTable⟩ world)) :=
    Eval.node_reports hhost _ root _ hstart
  unfold run
  dsimp only
  generalize Eval.node _ _ _ _ = r at h
  cases h with
  | ok hworld hlast => exact ⟨hworld, hlast⟩
  | error hworld =>
    -- The error becomes the value, and is recorded as it does.
    refine ⟨hworld, fun f hf => ?_⟩
    show Array.back? (Array.push _ (Fault.ofError _)) = some f
    rw [Array.back?_push]
    exact congrArg some (Value.fault.inj hf)

/-- **No fault goes unreported, and none is stored.** If no variable holds a fault before an
evaluation, none does after it; and if the evaluation has a fault as value, that is the last one
it has recorded, so there has been one. -/
theorem mem_faults_run (e : Evaluator) (root : Node) {env : Environment}
    (henv : ∀ name f, env.get? name ≠ some (.fault f)) :
    (∀ name f, (e.run Environment.host root env).world.get? name ≠ some (.fault f)) ∧
      ∀ f, (e.run Environment.host root env).value = .fault f →
        (e.run Environment.host root env).evaluator.faults.back? = some f ∧
          f ∈ (e.run Environment.host root env).evaluator.faults ∧
            (e.run Environment.host root env).evaluator.hadFault = true := by
  have hfaultless : env.Faultless := henv
  obtain ⟨hworld, hlast⟩ := run_reports Environment.faultless_host e root hfaultless
  refine ⟨hworld, fun f hf => ?_⟩
  have hback := hlast f hf
  have hmem := Array.mem_of_back? hback
  refine ⟨hback, hmem, ?_⟩
  rw [hadFault, Bool.not_eq_true', Array.isEmpty_eq_false_iff]
  exact Array.ne_empty_of_mem hmem

/-- An assignment of a quotient. -/
def quotient : Node :=
  (Program.parse {} 256 "x = 1 / y" default).1.tree

/-- The divisor is zero, and the assignment is not made. -/
theorem mem_faults_run_quotient :
    let env := ({} : Environment).set "y" (.number 0)
    let result := (ofSettings {}).run Environment.host quotient env
    (∀ name f, env.get? name ≠ some (.fault f)) ∧ result.value.isFault = true ∧
      (result.world.get? "x").isNone = true ∧
      (∀ name f, result.world.get? name ≠ some (.fault f)) ∧
      ∀ f, result.value = .fault f →
        result.evaluator.faults.back? = some f ∧ f ∈ result.evaluator.faults ∧
          result.evaluator.hadFault = true := by
  have hnone : ({} : Environment).Faultless := fun _ _ => by simp [Environment.get?]
  have henv : (({} : Environment).set "y" (.number 0)).Faultless := hnone.set "y" rfl
  exact ⟨henv, by decide +kernel, by decide +kernel, mem_faults_run (ofSettings {}) quotient henv⟩

end Run

end Evaluator

end Rulebook
