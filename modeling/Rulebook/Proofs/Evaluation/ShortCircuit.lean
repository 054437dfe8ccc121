import Rulebook.Proofs.Evaluation.Machine
import Rulebook.Proofs.Evaluation.Sites

/-!
# Rows of operands

`any` and `all` join their operands from the left by `||` and `&&`. Evaluating such a row comes to
evaluating its operands one after the other, up to the first that decides it: the nodes that join
them pass on what they get.

## Main definitions

* `Quantifier`: `any` and `all`, with the values that decide them
* `Node.Joins`: a node joins some operands from the left
* `Eval.Visits`: the operands that are evaluated between two states, with their values
* `Eval.ShortCircuits`: operands were evaluated up to the first that decides
* `Evaluator.ShortCircuits`: so it is whenever a row is evaluated in the run of a tree

## Main results

* `Node.Joins.shortCircuits`: what the evaluation of a row of operands comes to
* `Evaluator.shortCircuits_of_begun`: what it comes to in the run of a tree
-/

namespace Rulebook

/-! ## Quantifiers -/

/-- Whether some or all of the operands have to be true. -/
inductive Quantifier where
  | any
  | all
  deriving DecidableEq

namespace Quantifier

/-- The operator that joins the operands. -/
def op : Quantifier → LogicOp
  | any => .or
  | all => .and

/-- Whether operands behind one with this value do not count. -/
def decides (q : Quantifier) (value : Value) : Bool :=
  value.isFault ||
    match q with
    | any => value.isTruthy
    | all => !value.isTruthy

/-- Whether some or all of the values are true. -/
def holds (q : Quantifier) (values : List Value) : Bool :=
  match q with
  | any => values.any Value.isTruthy
  | all => values.all Value.isTruthy

theorem decides_eq_false_iff {q : Quantifier} {value : Value} : q.decides value = false ↔
    value.isFault = false ∧ value.isTruthy = decide (q = all) := by
  cases q <;> simp [decides]

/-- If no earlier value decides, the last one does. -/
theorem holds_concat {q : Quantifier} {values : List Value}
    (h : ∀ value ∈ values, q.decides value = false) (last : Value) :
    q.holds (values ++ [last]) = last.isTruthy := by
  have htruthy : ∀ value ∈ values, value.isTruthy = decide (q = all) := fun value hvalue =>
    (decides_eq_false_iff.1 (h value hvalue)).2
  cases q with
  | any =>
    have hnone : values.any Value.isTruthy = false :=
      List.any_eq_false.2 fun value hvalue => by simp [htruthy value hvalue]
    simp [holds, hnone]
  | all =>
    have hevery : values.all Value.isTruthy = true :=
      List.all_eq_true.2 fun value hvalue => by simp [htruthy value hvalue]
    simp [holds, hevery]

end Quantifier

/-- What a logic operator makes of the value that decides it. -/
def Value.truth (value : Value) : Value :=
  if value.isFault then value else .bool value.isTruthy

theorem Value.isFault_truth (value : Value) : value.truth.isFault = value.isFault := by
  unfold truth
  split
  · rfl
  · next h => exact (Bool.eq_false_iff.2 h).symm

theorem Value.isTruthy_truth (value : Value) : value.truth.isTruthy = value.isTruthy := by
  unfold truth
  split <;> rfl

theorem Value.truth_truth (value : Value) : value.truth.truth = value.truth := by
  rw [truth, isFault_truth, isTruthy_truth, truth]
  split <;> rfl

theorem Quantifier.decides_truth (q : Quantifier) (value : Value) :
    q.decides value.truth = q.decides value := by
  simp only [decides, value.isFault_truth, value.isTruthy_truth]

/-! ## Rows -/

/-- A node joins operands from the left by the operator of a quantifier; `joints` are the nodes
between it and the operands, itself included. -/
inductive Node.Joins (q : Quantifier) : Node → List Node → List Node → Prop
  | single (n : Node) : Joins q n [n] []
  | snoc {n left right : Node} {operands joints : List Node} (h : Joins q left operands joints)
    (hk : n.kind = .logic q.op (some left) (some right)) :
    Joins q n (operands ++ [right]) (joints ++ [n])

namespace Eval

variable {σ : Type} {ctx : EvalContext σ} {joints joints' : List Node} {s t u : EvalState σ}

/-- From one state to another these operands are evaluated, with these values. Other than that,
evaluations of joining nodes begin and end. -/
inductive Visits (ctx : EvalContext σ) (joints : List Node) :
    EvalState σ → List (Node × Value) → EvalState σ → Prop
  | done (s : EvalState σ) : Visits ctx joints s [] s
  | enter {n : Node} {s t : EvalState σ} {visits : List (Node × Value)} (hn : n ∈ joints)
    (h : Visits ctx joints (s.enter ctx n) visits t) : Visits ctx joints s visits t
  | leave {n : Node} {s t : EvalState σ} {visits : List (Node × Value)} (hn : n ∈ joints)
    (result : Value)
    (h : Visits ctx joints (s.leave ctx n result) visits t) : Visits ctx joints s visits t
  | operand {n : Node} {levels : Nat} {value : Value} {s t u : EvalState σ}
    {visits : List (Node × Value)} (hrun : EStateM.run (node ctx levels n) s = .ok value t)
    (h : Visits ctx joints t visits u) : Visits ctx joints s ((n, value) :: visits) u

theorem Visits.append {visits visits' : List (Node × Value)} (h : Visits ctx joints s visits t)
    (h' : Visits ctx joints t visits' u) : Visits ctx joints s (visits ++ visits') u := by
  induction h with
  | done => exact h'
  | enter hn _ ih => exact .enter hn (ih h')
  | leave hn result _ ih => exact .leave hn result (ih h')
  | operand hrun _ ih => exact .operand hrun (ih h')

theorem Visits.mono {visits : List (Node × Value)} (h : Visits ctx joints s visits t)
    (hj : ∀ n ∈ joints, n ∈ joints') : Visits ctx joints' s visits t := by
  induction h with
  | done => exact .done _
  | enter hn _ ih => exact .enter (hj _ hn) ih
  | leave hn result _ ih => exact .leave (hj _ hn) result ih
  | operand hrun _ ih => exact .operand hrun ih

/-- Operands were evaluated in order, up to the first with a value that decides, or all of them if
there is none. -/
structure ShortCircuits (q : Quantifier) (operands : List Node) (earlier : List (Node × Value))
    (last : Node × Value) : Prop where
  inOrder : (earlier ++ [last]).map Prod.fst <+: operands
  passed : ∀ visit ∈ earlier, q.decides visit.2 = false
  ended : q.decides last.2 = true ∨ (earlier ++ [last]).map Prod.fst = operands

/-! ## Evaluating a row -/

/-- What was evaluated between the beginning and the end of the evaluation of a node. -/
theorem exists_of_run_bracket {n : Node} {body : Eval σ Value} {v : Value}
    (h : EStateM.run (bracket ctx n body) s = .ok v t) :
    ∃ u, EStateM.run body (s.enter ctx n) = .ok v u ∧ t = u.leave ctx n v := by
  simp only [EStateM.run, bracket] at h ⊢
  split at h
  · next v' u hbody =>
    cases h
    exact ⟨u, hbody, rfl⟩
  · cases h

/-- A joining node evaluates its second operand only if the first one does not decide, and has the
truth of the last one that it evaluated. -/
theorem logic_eq (q : Quantifier) (run : Node → Eval σ Value) (n left right : Node) :
    logic ctx run n q.op (some left) (some right) = run left >>= fun l =>
      if q.decides l then pure l.truth else run right >>= fun r => pure r.truth := by
  refine bind_congr fun l => ?_
  have hright : (run right >>= fun r =>
      if r.isFault then pure r else pure (.bool r.isTruthy)) =
        run right >>= fun r => (pure r.truth : Eval σ Value) := by
    refine bind_congr fun r => ?_
    rw [Value.truth]
    split <;> rfl
  by_cases hfault : l.isFault = true
  · simp [Quantifier.decides, Value.truth, hfault]
  · rw [if_neg hfault]
    cases q with
    | any =>
      dsimp only [Quantifier.op]
      rw [hright]
      by_cases htruthy : l.isTruthy = true <;>
        simp [Quantifier.decides, Value.truth, hfault, htruthy]
    | all =>
      dsimp only [Quantifier.op]
      rw [hright]
      by_cases htruthy : l.isTruthy = true <;>
        simp [Quantifier.decides, Value.truth, hfault, htruthy]

end Eval

namespace Node

open Eval (Visits ShortCircuits)

variable {σ : Type} {ctx : EvalContext σ} {q : Quantifier} {n : Node}
  {operands joints : List Node} {s t : EvalState σ} {v : Value}

/-- What the evaluation of a row of operands comes to, of which there may be only one: they are
evaluated up to the first that decides, and the value has the truth of the last of these. -/
theorem Joins.exists_visits (h : n.Joins q operands joints) {levels : Nat}
    (hrun : EStateM.run (Eval.node ctx levels n) s = .ok v t) :
    ∃ earlier last, Visits ctx joints s (earlier ++ [last]) t ∧
      ShortCircuits q operands earlier last ∧ v.truth = last.2.truth ∧
        (1 < operands.length → v = last.2.truth) := by
  -- Induction on the row, whose last operand is the second one of its root.
  induction h generalizing levels s t v with
  | single n =>
    refine ⟨[], (n, v), .operand hrun (.done t), ⟨List.prefix_refl _, List.forall_mem_nil _, ?_⟩,
      rfl, ?_⟩
    · exact .inr rfl
    · simp
  | @snoc n left right operands joints _ hk ih =>
    cases levels with
    | zero => cases hrun
    | succ levels =>
    obtain ⟨u, hbody, rfl⟩ := Eval.exists_of_run_bracket hrun
    rw [Eval.step, hk] at hbody
    dsimp only at hbody
    rw [Eval.logic_eq, EStateM.run_bind] at hbody
    split at hbody
    swap
    · cases hbody
    next l w hl =>
    obtain ⟨earlier, last, hvisits, hcircuit, htruth, -⟩ := ih hl
    have hn : n ∈ joints ++ [n] := List.mem_append_right _ (List.mem_singleton_self n)
    have hbegun : Visits ctx (joints ++ [n]) s (earlier ++ [last]) w :=
      .enter hn (hvisits.mono fun m hm => List.mem_append_left _ hm)
    have hdecides : q.decides l = q.decides last.2 := by
      rw [← q.decides_truth l, htruth, q.decides_truth]
    split at hbody
    -- The first operand decides, and its value is passed on ...
    · next hdecided =>
      cases hbody
      refine ⟨earlier, last, ?_, ⟨?_, hcircuit.passed, .inl (hdecides ▸ hdecided)⟩, ?_,
        fun _ => htruth⟩
      · have hended : Visits ctx (joints ++ [n]) u [] (u.leave ctx n l.truth) :=
          .leave hn l.truth (.done _)
        simpa using hbegun.append hended
      · exact hcircuit.inOrder.trans (List.prefix_append _ _)
      · rw [l.truth_truth, htruth]
    -- ... or all operands on the left were evaluated, and the last one is too.
    · next hpassed =>
      rw [EStateM.run_bind] at hbody
      split at hbody
      swap
      · cases hbody
      next r u' hr =>
      cases hbody
      have hall : (earlier ++ [last]).map Prod.fst = operands :=
        hcircuit.ended.resolve_left (hdecides ▸ hpassed)
      refine ⟨earlier ++ [last], (right, r), ?_, ⟨?_, ?_, ?_⟩, ?_, fun _ => rfl⟩
      · exact hbegun.append (.operand hr (.leave hn r.truth (.done _)))
      · rw [List.map_append, hall]
        exact List.prefix_refl _
      · rintro visit hvisit
        rcases List.mem_append.1 hvisit with hearlier | hlast
        · exact hcircuit.passed visit hearlier
        · rw [List.mem_singleton.1 hlast]
          exact Bool.eq_false_iff.2 (hdecides ▸ hpassed)
      · refine .inr ?_
        rw [List.map_append, hall]
        rfl
      · exact r.truth_truth

/-- Of at least two operands, those up to the first that decides are evaluated. The value is the
fault of the last of these, or tells whether some, or all, of them are true. -/
theorem Joins.shortCircuits (h : n.Joins q operands joints) (hlength : 2 ≤ operands.length)
    {levels : Nat} (hrun : EStateM.run (Eval.node ctx levels n) s = .ok v t) :
    ∃ earlier last, Visits ctx joints s (earlier ++ [last]) t ∧
      ShortCircuits q operands earlier last ∧
        v = if last.2.isFault then last.2
          else .bool (q.holds ((earlier ++ [last]).map Prod.snd)) := by
  obtain ⟨earlier, last, hvisits, hcircuit, -, hv⟩ := h.exists_visits hrun
  refine ⟨earlier, last, hvisits, hcircuit, ?_⟩
  have hpassed : ∀ value ∈ earlier.map Prod.snd, q.decides value = false :=
    List.forall_mem_map.2 hcircuit.passed
  have hholds := Quantifier.holds_concat hpassed last.2
  rw [List.map_append, List.map_singleton, hholds, hv hlength, Value.truth]

end Node

/-! ## Rows in the run of a tree -/

namespace Evaluator

open Eval.Machine (Reaches ofResult)

variable {σ : Type} {e : Evaluator} {host : Host σ} {root : Node} {world : σ}

/-- An evaluation comes to a value if it neither hits the ceiling nor finds a rule running. -/
theorem exists_outcome_eq_ok
    (hceiling : ¬ e.EndsIn host root world (.tooDeep "evaluator" e.settings.maxDepth))
    (hloop : ∀ name, ¬ e.EndsIn host root world (.ruleLoop name)) :
    ∃ v s, e.outcome host root world = .ok v s := by
  have hleaves := e.outcome_leaves host root world
  cases hr : e.outcome host root world with
  | ok v s => exact ⟨v, s, rfl⟩
  | error err s =>
    rw [hr] at hleaves
    cases hleaves.2 with
    | ceiling => exact absurd ⟨s, hr⟩ hceiling
    | loop => exact absurd ⟨s, hr⟩ (hloop _)

section Moments

variable {v : Value} {t : EvalState σ} (hok : e.outcome host root world = .ok v t)
  {begun : Nat} {n : Node} {pending : List Eval.Pending} {s : EvalState σ}
  (hbegun : e.machine host root world begun = ⟨.eval n, pending, s⟩)

include hok

/-- No error turns up on the way to a value. -/
theorem focus_machine_ne (steps : Nat) (err : Error) :
    (e.machine host root world steps).focus ≠ .error err := by
  intro hfocus
  obtain ⟨last, hlast⟩ := e.exists_machine_eq host root world
  have hlate := e.machine_add host root world steps last
  rw [hlast _ (Nat.le_add_left ..), hok] at hlate
  generalize e.machine host root world steps = m at hfocus hlate
  obtain ⟨focus, pending, s⟩ := m
  cases hfocus
  have hstays := congrArg Eval.Machine.focus hlate
  rw [Eval.Machine.focus_iterate_error] at hstays
  cases hstays

include hbegun

/-- What the machine begins with is below the ceiling. -/
theorem depth_lt_of_begun : s.depth < e.settings.maxDepth := by
  by_contra hdepth
  have hnext := focus_machine_ne hok (begun + 1) (.tooDeep "evaluator" e.settings.maxDepth)
  rw [machine_add, hbegun, Function.iterate_one, Eval.Machine.next, if_pos (Nat.not_lt.1 hdepth)]
    at hnext
  exact hnext rfl

/-- The machine begins with the node whose value a plan asks for first. -/
theorem machine_child {m : Node} {rest : Value → Eval.Plan}
    (hplan : Eval.Plan.ofNode ⟨host, e.settings, root.ruleTable⟩ n = .eval m rest) :
    e.machine host root world (begun + 2) =
      ⟨.eval m, .resume rest :: .bracket n :: pending,
        s.enter ⟨host, e.settings, root.ruleTable⟩ n⟩ := by
  have hdepth := depth_lt_of_begun hok hbegun
  rw [machine_add, hbegun, Function.iterate_succ_apply, Function.iterate_one, Eval.Machine.next,
    if_neg (Nat.not_le.2 hdepth), hplan]
  rfl

/-- What the machine begins with, it comes to a value of, as the evaluation does. -/
theorem exists_finished : ∃ levels value after finished,
    EStateM.run (Eval.node ⟨host, e.settings, root.ruleTable⟩ levels n) s = .ok value after ∧
      begun ≤ finished ∧
        e.machine host root world finished = ⟨.plan (.done value), pending, after⟩ := by
  have hdepth := depth_lt_of_begun hok hbegun
  let ctx : EvalContext σ := ⟨host, e.settings, root.ruleTable⟩
  obtain ⟨levels, hlevels⟩ : ∃ levels, s.depth + levels = ctx.settings.maxDepth :=
    ⟨e.settings.maxDepth - s.depth, Nat.add_sub_cancel' hdepth.le⟩
  obtain ⟨more, hmore⟩ : Reaches ctx ⟨.eval n, pending, s⟩
      (ofResult pending (EStateM.run (Eval.node ctx levels n) s)) :=
    Eval.reaches_node levels n pending s hlevels
  rw [← hbegun, ← machine_add] at hmore
  cases hr : EStateM.run (Eval.node ctx levels n) s with
  | ok value after =>
    rw [hr] at hmore
    exact ⟨_, value, after, begun + more, hr, Nat.le_add_right .., hmore⟩
  | error err after =>
    rw [hr] at hmore
    exact absurd (by rw [hmore]; rfl) (focus_machine_ne hok (begun + more) err)

end Moments

/-- In the evaluation of a tree the machine begins with a row of operands. Whenever it does, it
evaluates them up to the first that decides, and then has the fault of the last of these, or tells
whether some, or all, of them are true. -/
def ShortCircuits (e : Evaluator) (host : Host σ) (root : Node) (world : σ) (q : Quantifier)
    (row : Node) (operands joints : List Node) : Prop :=
  (∃ begun pending before, e.machine host root world begun = ⟨.eval row, pending, before⟩) ∧
    ∀ begun pending before, e.machine host root world begun = ⟨.eval row, pending, before⟩ →
      ∃ value after finished earlier last, begun ≤ finished ∧
        e.machine host root world finished = ⟨.plan (.done value), pending, after⟩ ∧
          Eval.Visits ⟨host, e.settings, root.ruleTable⟩ joints before (earlier ++ [last]) after ∧
            Eval.ShortCircuits q operands earlier last ∧
              value = if last.2.isFault then last.2
                else .bool (q.holds ((earlier ++ [last]).map Prod.snd))

/-- Rows are evaluated up to the first operand that decides. -/
theorem shortCircuits_of_begun {v : Value} {t : EvalState σ}
    (hok : e.outcome host root world = .ok v t) {q : Quantifier} {row : Node}
    {operands joints : List Node} (hjoins : row.Joins q operands joints)
    (hlength : 2 ≤ operands.length) {begun : Nat} {pending : List Eval.Pending} {s : EvalState σ}
    (hbegun : e.machine host root world begun = ⟨.eval row, pending, s⟩) :
    e.ShortCircuits host root world q row operands joints := by
  refine ⟨⟨begun, pending, s, hbegun⟩, fun begun pending before hbegun => ?_⟩
  obtain ⟨levels, value, after, finished, hrun, hle, hfinished⟩ := exists_finished hok hbegun
  obtain ⟨earlier, last, hvisits, hcircuit, hvalue⟩ := hjoins.shortCircuits hlength hrun
  exact ⟨value, after, finished, earlier, last, hle, hfinished, hvisits, hcircuit, hvalue⟩

end Evaluator

end Rulebook
