import Mathlib.Data.List.Forall2
import Rulebook.Proofs.Evaluation.Course
import Rulebook.Proofs.Node.Folding

/-!
# Relations between evaluations

Two evaluations of trees of the same shape take the same steps as long as their parts do. So a
relation between computations holds of the evaluations of two nodes once it holds of single moves
and is kept when computations are put together.

## Main definitions

* `Kind.Matches`: two nodes evaluate their operands in the same way
* `Eval.Congruence`: a relation that holds of moves and is kept by putting computations together
* `Eval.PreCongruence`: the same without the stretches in which a rule is active

## Main results

* `Eval.PreCongruence.step`: a relation between the evaluations of nodes, those of rules given
* `Eval.Congruence.step`, `Eval.Congruence.step_self`: a congruence relates the evaluations of
  nodes if it relates those of their children and of the rules that can be called
-/

namespace Rulebook

/-! ## Variants side by side -/

/-- Two variants differ in their operands, which are related, and in what evaluation does not look
at. -/
inductive Kind.Matches {α β : Type} (N : α → β → Prop) : Kind α → Kind β → Prop where
  | decision {c y n : Option α} {c' y' n' : Option β} (hc : Option.Rel N c c')
      (hy : Option.Rel N y y') (hn : Option.Rel N n n') :
      Matches N (.decision c y n) (.decision c' y' n')
  | consequence {c c' : Consequence} (haction : c'.action = c.action) (hkind : c'.kind = c.kind) :
      Matches N (.consequence c) (.consequence c')
  | rule {head head' : RuleHead} {body : Option α} {body' : Option β}
      (hname : head'.name = head.name) (hactive : head'.isActive = head.isActive)
      (hbody : Option.Rel N body body') : Matches N (.rule head body) (.rule head' body')
  | logic (op : LogicOp) {l r : Option α} {l' r' : Option β} (hl : Option.Rel N l l')
      (hr : Option.Rel N r r') : Matches N (.logic op l r) (.logic op l' r')
  | comparison (op : CompareOp) {l r : Option α} {l' r' : Option β} (hl : Option.Rel N l l')
      (hr : Option.Rel N r r') : Matches N (.comparison op l r) (.comparison op l' r')
  | identifier (name : String) : Matches N (.identifier name) (.identifier name)
  | literal (l : Literal) : Matches N (.literal l) (.literal l)
  | chain (order : ChainOrder) {f s : Option α} {f' s' : Option β} (hf : Option.Rel N f f')
      (hs : Option.Rel N s s') : Matches N (.chain order f s) (.chain order f' s')
  | arithmetic (op : ArithOp) {l r : Option α} {l' r' : Option β} (hl : Option.Rel N l l')
      (hr : Option.Rel N r r') : Matches N (.arithmetic op l r) (.arithmetic op l' r')
  | block : Matches N .block .block
  | ruleCall (name : String) : Matches N (.ruleCall name) (.ruleCall name)
  | extension (tag : String) : Matches N (.extension tag) (.extension tag)

theorem rel_map_of_mem {α β : Type} {N : α → β → Prop} {f : α → β} {o : Option α}
    (h : ∀ a ∈ o, N a (f a)) : Option.Rel N o (o.map f) := by
  cases o with
  | none => exact .none
  | some a => exact .some (h a rfl)

theorem rel_map {α β : Type} {N : α → β → Prop} {f : α → β} (h : ∀ a, N a (f a)) (o : Option α) :
    Option.Rel N o (o.map f) :=
  rel_map_of_mem fun a _ => h a

theorem Kind.matches_map_of_mem {α β : Type} {N : α → β → Prop} {f : α → β} {k : Kind α}
    (h : ∀ a ∈ k.operands, N a (f a)) : k.Matches N (k.map f) := by
  have hslot {o : Option α} (ho : o ∈ k.slots) : Option.Rel N o (o.map f) :=
    rel_map_of_mem fun a ha => h a (List.mem_filterMap.2 ⟨o, ho, ha⟩)
  cases k with
  | decision c y n =>
    exact .decision (hslot (by simp [slots])) (hslot (by simp [slots])) (hslot (by simp [slots]))
  | consequence c => exact .consequence rfl rfl
  | rule head body => exact .rule rfl rfl (hslot (by simp [slots]))
  | logic op l r => exact .logic op (hslot (by simp [slots])) (hslot (by simp [slots]))
  | comparison op l r => exact .comparison op (hslot (by simp [slots])) (hslot (by simp [slots]))
  | identifier name => exact .identifier name
  | literal l => exact .literal l
  | chain order f s => exact .chain order (hslot (by simp [slots])) (hslot (by simp [slots]))
  | arithmetic op l r => exact .arithmetic op (hslot (by simp [slots])) (hslot (by simp [slots]))
  | block => exact .block
  | ruleCall name => exact .ruleCall name
  | extension tag => exact .extension tag

theorem Kind.matches_map {α β : Type} {N : α → β → Prop} {f : α → β} (h : ∀ a, N a (f a))
    (k : Kind α) : k.Matches N (k.map f) :=
  matches_map_of_mem fun a _ => h a

namespace Eval

variable {σ τ : Type}

/-! ## Variants move by move -/

section Moves

variable (ctx : EvalContext σ) (run : Node → Eval σ Value) (n : Node)

/-- A computation, unless a rule is running already. -/
def unlessRunning {α : Type} (rule : String) (x : Eval σ α) : Eval σ α := do
  if (← get).active.contains rule then abort ctx n (.ruleLoop rule) else x

theorem match_eq_elim (value : Value) (o : Option Node) :
    (match o with
      | some m => run m
      | none => pure value) = o.elim (pure value) run := by
  cases o <;> rfl

theorem decision_some (c : Node) (yes no : Option Node) :
    decision ctx run n (some c) yes no = (do
      let value ← run c
      modify (EvalState.decided ctx n · c value)
      (if value.isTruthy then yes else no).elim (return .bool value.isTruthy) run) := by
  simp only [← match_eq_elim]
  rfl

theorem assignment_cons {expr : Node} {rest : List Node} (h : n.children = expr :: rest)
    (name : String) :
    assignment ctx run n name = (do
      let value ← run expr
      if value.isFault then return value
      modify (EvalState.assigned ctx n · name value)
      return .outcome ⟨name, .assign, true, value, none⟩) := by
  rw [assignment, h]
  rfl

theorem rule_eq (head : RuleHead) (body : Option Node) :
    rule ctx run n head body = (do
      if !head.isActive then
        modify (EvalState.record ctx
          (·.message (some n.id) ("rule " ++ head.name ++ " is inactive")))
        return .bool false
      unlessRunning ctx n head.name do
        modify (EvalState.activated ctx n · head)
        within head.name (body.elim (return .void) run)) := by
  simp only [← match_eq_elim]
  rfl

end Moves

/-! ## Congruences -/

/-- A relation between computations that holds of single moves at paired nodes, and is kept when
computations follow each other. Nothing is said of what is done while a rule is active, so that the
relation may depend on the rules that are. -/
structure PreCongruence (ctx : EvalContext σ) (ctx' : EvalContext τ) (P : Node → Node → Prop)
    (R : ∀ ⦃α : Type⦄, Eval σ α → Eval τ α → Prop) : Prop where
  golf : ctx'.settings.golf = ctx.settings.golf
  pure : ∀ {α : Type} (a : α), R (pure a : Eval σ α) (pure a)
  bind : ∀ {α β : Type} {x : Eval σ α} {y : Eval τ α} {f : α → Eval σ β} {g : α → Eval τ β},
    R x y → (∀ a, R (f a) (g a)) → R (x >>= f) (y >>= g)
  read : ∀ name, R (read ctx name) (read ctx' name)
  fail : ∀ {n m}, P n m → ∀ kind message, R (fail ctx n kind message) (fail ctx' m kind message)
  decide : ∀ {n m c d}, P n m → P c d → ∀ value,
    R (modify (EvalState.decided ctx n · c value)) (modify (EvalState.decided ctx' m · d value))
  assign : ∀ {n m}, P n m → ∀ name value,
    R (modify (EvalState.assigned ctx n · name value))
      (modify (EvalState.assigned ctx' m · name value))
  perform : ∀ {n m}, P n m → ∀ {c c' : Consequence}, c'.action = c.action → c'.kind = c.kind →
    R (consequence ctx n c) (consequence ctx' m c')
  remark : ∀ {n m}, P n m → ∀ text,
    R (modify (EvalState.record ctx (·.message (some n.id) text)))
      (modify (EvalState.record ctx' (·.message (some m.id) text)))

/-- A relation between computations that holds of single moves at paired nodes, and is kept when
computations are put together. -/
structure Congruence (ctx : EvalContext σ) (ctx' : EvalContext τ) (P : Node → Node → Prop)
    (R : ∀ ⦃α : Type⦄, Eval σ α → Eval τ α → Prop) : Prop extends PreCongruence ctx ctx' P R where
  activate : ∀ {n m}, P n m → ∀ {head head' : RuleHead}, head'.name = head.name →
    R (modify (EvalState.activated ctx n · head)) (modify (EvalState.activated ctx' m · head'))
  unlessRunning : ∀ {n m}, P n m → ∀ {α : Type} (rule : String) {x : Eval σ α} {y : Eval τ α},
    R x y → R (unlessRunning ctx n rule x) (unlessRunning ctx' m rule y)
  within : ∀ {α : Type} (rule : String) {x : Eval σ α} {y : Eval τ α},
    R x y → R (within rule x) (within rule y)

variable {ctx : EvalContext σ} {ctx' : EvalContext τ} {P : Node → Node → Prop}
  {R : ∀ ⦃α : Type⦄, Eval σ α → Eval τ α → Prop}

namespace PreCongruence

theorem ite (_h : PreCongruence ctx ctx' P R) {α : Type} {c : Prop} [Decidable c] {x x' : Eval σ α}
    {y y' : Eval τ α} (hx : R x y) (hx' : R x' y') :
    R (if c then x else x') (if c then y else y') := by
  split
  · exact hx
  · exact hx'

/-! ## The variants of a node -/

section Variants

variable {N : Node → Node → Prop} {run : Node → Eval σ Value} {run' : Node → Eval τ Value}
  {n m : Node} (h : PreCongruence ctx ctx' P R) (hnm : P n m)
  (hrun : ∀ {c d}, N c d → P c d ∧ R (run c) (run' d))
include h hrun

theorem elim {body body' : Option Node} (hb : Option.Rel N body body') (value : Value) :
    R (body.elim (Pure.pure value) run) (body'.elim (Pure.pure value) run') := by
  cases hb with
  | none => exact h.pure value
  | some hb => exact (hrun hb).2

theorem block {ns ms : List Node} (hns : List.Forall₂ N ns ms) (last : Value) :
    R (block run last ns) (block run' last ms) := by
  induction hns generalizing last with
  | nil => exact h.pure last
  | cons hc _ ih => exact h.bind (hrun hc).2 fun value => h.ite (h.pure value) (ih value)

include hnm

theorem decision {c y o c' y' o' : Option Node} (hc : Option.Rel N c c')
    (hy : Option.Rel N y y') (ho : Option.Rel N o o') :
    R (decision ctx run n c y o) (decision ctx' run' m c' y' o') := by
  cases hc with
  | none => exact h.fail hnm _ _
  | some hc =>
    rw [decision_some, decision_some]
    refine h.bind (hrun hc).2 fun value => ?_
    refine h.bind (h.decide hnm (hrun hc).1 value) fun _ => ?_
    -- The same branch is taken on both sides.
    cases value.isTruthy
    · exact h.elim hrun ho _
    · exact h.elim hrun hy _

theorem assignment (hchildren : List.Forall₂ N n.children m.children) (name : String) :
    R (assignment ctx run n name) (assignment ctx' run' m name) := by
  generalize hn : n.children = ns, hm : m.children = ms at hchildren
  cases hchildren with
  | nil =>
    rw [Eval.assignment, Eval.assignment, hn, hm]
    exact h.fail hnm _ _
  | cons hexpr _ =>
    rw [assignment_cons _ _ _ hn, assignment_cons _ _ _ hm]
    refine h.bind (hrun hexpr).2 fun value => h.ite (h.pure value) ?_
    exact h.bind (h.assign hnm name value) fun _ => h.pure _

theorem logic (op : LogicOp) {l r l' r' : Option Node} (hl : Option.Rel N l l')
    (hr : Option.Rel N r r') : R (logic ctx run n op l r) (logic ctx' run' m op l' r') := by
  cases hl with
  | none => exact h.fail hnm _ _
  | some hl =>
    refine h.bind (hrun hl).2 fun l => h.ite (h.pure _) (h.ite (h.pure _) ?_)
    cases hr with
    | none => exact h.fail hnm _ _
    | some hr => exact h.bind (hrun hr).2 fun r => h.ite (h.pure _) (h.pure _)

theorem comparison (op : CompareOp) {l r l' r' : Option Node} (hl : Option.Rel N l l')
    (hr : Option.Rel N r r') :
    R (comparison ctx run n op l r) (comparison ctx' run' m op l' r') := by
  cases hl with
  | none => exact h.fail hnm _ _
  | some hl =>
    cases hr with
    | none => exact h.fail hnm _ _
    | some hr =>
      refine h.bind (hrun hl).2 fun l => h.ite (h.pure _) ?_
      refine h.bind (hrun hr).2 fun r => h.ite (h.pure _) ?_
      cases op.apply l r with
      | some result => exact h.pure _
      | none => exact h.fail hnm _ _

theorem chain (order : ChainOrder) {f s f' s' : Option Node} (hf : Option.Rel N f f')
    (hs : Option.Rel N s s') : R (chain ctx run n order f s) (chain ctx' run' m order f' s') := by
  cases hf with
  | none => exact h.fail hnm _ _
  | some hf =>
    cases hs with
    | none => exact h.fail hnm _ _
    | some hs =>
      refine h.bind (hrun hf).2 fun head => h.ite (h.pure _) ?_
      rw [h.golf]
      refine h.ite (h.bind (h.remark hnm _) fun _ => h.pure _) ?_
      exact h.bind (hrun hs).2 fun tail => h.ite (h.pure _) (h.pure _)

omit hrun in
theorem settle (result : Except Fault Value) :
    R (settle ctx n result) (settle ctx' m result) := by
  cases result with
  | ok value => exact h.pure value
  | error fault => exact h.fail hnm _ _

theorem arithmetic (op : ArithOp) {l r l' r' : Option Node} (hl : Option.Rel N l l')
    (hr : Option.Rel N r r') :
    R (arithmetic ctx run n op l r) (arithmetic ctx' run' m op l' r') := by
  cases hl with
  | none => exact h.fail hnm _ _
  | some hl =>
    refine h.bind (hrun hl).2 fun l => h.ite (h.pure _) (h.ite (h.settle hnm _) ?_)
    cases hr with
    | none => exact h.fail hnm _ _
    | some hr => exact h.bind (hrun hr).2 fun r => h.ite (h.pure _) (h.settle hnm _)

end Variants

/-! ## Nodes -/

/-- The evaluations of two nodes of the same shape are related, if those of their children and of
the rules that they call are. Of two rules it has to be known. -/
theorem step (h : PreCongruence ctx ctx' P R) {N : Node → Node → Prop} {run : Node → Eval σ Value}
    {run' : Node → Eval τ Value} {n m : Node} (hnm : P n m)
    (hrun : ∀ {c d}, N c d → P c d ∧ R (run c) (run' d))
    (hrules : ∀ name, n.kind = .ruleCall name →
      Option.Rel N (ctx.rules.find? name) (ctx'.rules.find? name))
    (hkind : n.kind.Matches N m.kind) (hchildren : List.Forall₂ N n.children m.children)
    (hrule : ∀ {head head' : RuleHead} {body body' : Option Node}, n.kind = .rule head body →
      head'.name = head.name → head'.isActive = head.isActive → Option.Rel N body body' →
      R (rule ctx run n head body) (rule ctx' run' m head' body')) :
    R (step ctx run n) (step ctx' run' m) := by
  unfold Eval.step
  generalize n.kind = k, m.kind = k' at hkind hrules hrule
  cases hkind with
  | decision hc hy hn => exact h.decision hnm hrun hc hy hn
  | consequence haction hkind =>
    dsimp only
    rw [hkind, haction]
    exact h.ite (h.assignment hnm hrun hchildren _) (h.perform hnm haction hkind)
  | rule hname hactive hbody => exact hrule rfl hname hactive hbody
  | logic op hl hr => exact h.logic hnm hrun op hl hr
  | comparison op hl hr => exact h.comparison hnm hrun op hl hr
  | identifier name => exact h.read name
  | literal l => exact h.pure _
  | chain order hf hs => exact h.chain hnm hrun order hf hs
  | arithmetic op hl hr => exact h.arithmetic hnm hrun op hl hr
  | block => exact h.block hrun hchildren _
  | ruleCall name =>
    -- A rule that is called is no child of the node, so it comes from the tables.
    have hrule := hrules name rfl
    dsimp only
    generalize ctx.rules.find? name = r, ctx'.rules.find? name = r' at hrule
    cases hrule with
    | some hrule => exact (hrun hrule).2
    | none => exact h.fail hnm _ _
  | extension tag => exact h.fail hnm _ _

end PreCongruence

namespace Congruence

theorem rule (h : Congruence ctx ctx' P R) {N : Node → Node → Prop} {run : Node → Eval σ Value}
    {run' : Node → Eval τ Value} {n m : Node} (hnm : P n m)
    (hrun : ∀ {c d}, N c d → P c d ∧ R (run c) (run' d)) {head head' : RuleHead}
    {body body' : Option Node} (hname : head'.name = head.name)
    (hactive : head'.isActive = head.isActive) (hbody : Option.Rel N body body') :
    R (rule ctx run n head body) (rule ctx' run' m head' body') := by
  rw [rule_eq, rule_eq, hname, hactive]
  refine h.toPreCongruence.ite (h.bind (h.remark hnm _) fun _ => h.pure _) ?_
  refine h.unlessRunning hnm head.name ?_
  exact h.bind (h.activate hnm hname) fun _ => h.within _ (h.toPreCongruence.elim hrun hbody _)

/-- A congruence relates the evaluations of two nodes of the same shape, if it relates those of
their children and of the rules that can be called. -/
theorem step (h : Congruence ctx ctx' P R) {N : Node → Node → Prop} {run : Node → Eval σ Value}
    {run' : Node → Eval τ Value} {n m : Node} (hnm : P n m)
    (hrun : ∀ {c d}, N c d → P c d ∧ R (run c) (run' d))
    (hrules : ∀ name, Option.Rel N (ctx.rules.find? name) (ctx'.rules.find? name))
    (hkind : n.kind.Matches N m.kind) (hchildren : List.Forall₂ N n.children m.children) :
    R (step ctx run n) (step ctx' run' m) :=
  h.toPreCongruence.step hnm hrun (fun name _ => hrules name) hkind hchildren
    fun _ hname hactive hbody => h.rule hnm hrun hname hactive hbody

/-- A congruence relates the evaluations of a node to itself, if it does so for its children and
for the rules that can be called. -/
theorem step_self (h : Congruence ctx ctx' Eq R) {run : Node → Eval σ Value}
    {run' : Node → Eval τ Value} (hrules : ctx'.rules = ctx.rules)
    (hrun : ∀ c, R (run c) (run' c)) (n : Node) :
    R (Eval.step ctx run n) (Eval.step ctx' run' n) := by
  refine h.step (N := Eq) rfl ?_ (fun name => ?_) ?_ (List.forall₂_same.2 fun _ _ => rfl)
  · rintro c _ rfl
    exact ⟨rfl, hrun c⟩
  · rw [hrules]
    cases ctx.rules.find? name with
    | none => exact .none
    | some r => exact .some rfl
  · have hmatches := Kind.matches_map (N := Eq) (f := fun c => c) (fun _ => rfl) n.kind
    rwa [Kind.map_id'] at hmatches

end Congruence

end Eval

end Rulebook
