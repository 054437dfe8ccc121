import Mathlib.Algebra.Order.BigOperators.Group.List
import Mathlib.Algebra.Order.Group.Nat
import Rulebook.Proofs.Evaluation.Machine
import Rulebook.Proofs.Node.Around
import Rulebook.Proofs.Trace.Links

/-!
# Evaluations within a budget

The evaluation of a node asks for each of its operands at most once. What may be evaluated again is
the body of a rule, whenever the rule is called.

So the decisions at a node can be kept in accounts. Each has its price, and each activation of a
rule that guards it pays for one. The evaluation of a node costs what it may spend beyond that: one
decision if the one in question stands below it, but nothing if its guard stands in between.

## Main definitions

* `Trace.decisions`: how many decisions at a node a trace holds
* `Eval.cost`: what the evaluation of a node may cost
* `Eval.Plan.Within`, `Eval.Spends`: plans and computations that get by with a budget

## Main results

* `Eval.Plan.within_ofNode`: a plan asks for each operand at most once
* `Eval.node_spends`: the evaluation of a node spends no more than it costs
-/

namespace Rulebook

/-- How many entries of a trace are about decisions at a node. -/
def Trace.decisions (t : Trace) (d : NodeId) : Nat :=
  t.toList.countP (Trace.isOfKind d .decision)

theorem Marks.count_execute (m : Marks) (id : NodeId) : (m.execute id).count = m.count :=
  rfl

namespace Eval

/-! ## Accounts -/

section Accounts

variable (d : NodeId) (guard : Option NodeId)

/-- What the evaluation of a node may cost: a decision below it, unless that is guarded by a rule
below it. -/
def cost (n : Node) : Nat :=
  n.tally d - guard.elim 0 (n.tally ·)

/-- What an action costs. -/
def Act.price : Act → Nat
  | decide n _ _ => if n.id = d then 1 else 0
  | _ => 0

/-- What an action pays for. -/
def Act.gain : Act → Nat
  | activate n _ => if some n.id = guard then 1 else 0
  | _ => 0

end Accounts

/-! ## Plans within a budget -/

namespace Plan

section Budgets

variable (d : NodeId) (guard : Option NodeId) (scope : Node → Prop)

/-- A plan gets by with a budget, and evaluates some nodes only. -/
def Within : Plan → Nat → Prop
  | done _, _ => True
  | act a rest, k => a.price d ≤ k ∧ ∀ value, (rest value).Within (k - a.price d + a.gain guard)
  | eval m rest, k => scope m ∧ cost d guard m ≤ k ∧
    ∀ value, (rest value).Within (k - cost d guard m)
  | unlessRunning _ _ rest, k => rest.Within k
  | under _ m, k => scope m ∧ cost d guard m ≤ k

/-- A budget for the evaluation of some nodes, each once. -/
structure Affords (ms : List Node) (k : Nat) : Prop where
  scope : ∀ m ∈ ms, scope m
  cost : (ms.map (cost d guard)).sum ≤ k

variable {d guard scope} {n m : Node} {ms ms' : List Node} {k : Nat} {p q : Plan}

theorem Affords.head (h : Affords d guard scope (m :: ms) k) :
    scope m ∧ Eval.cost d guard m ≤ k := by
  have hcost := h.cost
  rw [List.map_cons, List.sum_cons] at hcost
  exact ⟨h.scope m List.mem_cons_self, by omega⟩

theorem Affords.tail (h : Affords d guard scope (m :: ms) k) :
    Affords d guard scope ms (k - Eval.cost d guard m) where
  scope c hc := h.scope c (List.mem_cons_of_mem _ hc)
  cost := by
    have hcost := h.cost
    rw [List.map_cons, List.sum_cons] at hcost
    omega

theorem Affords.sublist (h : Affords d guard scope ms k) (hms : ms'.Sublist ms) :
    Affords d guard scope ms' k where
  scope c hc := h.scope c (hms.subset hc)
  cost := (List.Sublist.sum_le_sum (hms.map _) fun _ _ => Nat.zero_le _).trans h.cost

/-- A plan that asks for the first one goes on with what is left for the others. -/
theorem within_eval {rest : Value → Plan} (h : Affords d guard scope (m :: ms) k)
    (hrest : ∀ value left, Affords d guard scope ms left → (rest value).Within d guard scope left) :
    (eval m rest).Within d guard scope k :=
  ⟨h.head.1, h.head.2, fun value => hrest value _ h.tail⟩

theorem within_ite {c : Prop} [Decidable c] (hp : p.Within d guard scope k)
    (hq : q.Within d guard scope k) : (if c then p else q).Within d guard scope k := by
  split
  · exact hp
  · exact hq

theorem within_unlessFault (value : Value) (hp : p.Within d guard scope k) :
    (unlessFault value p).Within d guard scope k :=
  within_ite trivial hp

theorem within_fail (fault : Fault) (h : fault.kind ≠ .recursion) :
    (fail n fault h).Within d guard scope k :=
  ⟨Nat.zero_le _, fun _ => trivial⟩

theorem within_invalid (message : String) : (invalid n message).Within d guard scope k :=
  within_fail _ _

theorem within_part (value : Value) {o : Option Node} (h : Affords d guard scope o.toList k) :
    (part value o).Within d guard scope k := by
  cases o with
  | none => trivial
  | some m => exact ⟨h.head.1, h.head.2, fun _ => trivial⟩

/-- A decision evaluates its condition and one of the branches. -/
theorem within_decision {condition yes no : Option Node} (hprice : (if n.id = d then 1 else 0) ≤ k)
    (h : Affords d guard scope (Kind.decision condition yes no).operands
      (k - if n.id = d then 1 else 0)) :
    (decision n condition yes no).Within d guard scope k := by
  cases condition with
  | none => exact within_invalid _
  | some c =>
    have hops : (Kind.decision (some c) yes no).operands = c :: (yes.toList ++ no.toList) := by
      cases yes <;> cases no <;> rfl
    rw [hops] at h
    obtain ⟨hscope, hcost⟩ := h.head
    refine ⟨hscope, by omega, fun value => ⟨?_, fun _ => within_part _ ?_⟩⟩
    · simp only [Act.price]
      omega
    · have htail := h.tail
      simp only [Act.price, Act.gain, Nat.add_zero, Nat.sub_right_comm k (cost d guard c)]
      split
      · exact htail.sublist (List.sublist_append_left _ _)
      · exact htail.sublist (List.sublist_append_right _ _)

theorem within_assignment (h : Affords d guard scope n.children k) (name : String) :
    (assignment n name).Within d guard scope k := by
  unfold assignment
  split
  · exact within_invalid _
  · next expr rest hchildren =>
    rw [hchildren] at h
    exact ⟨h.head.1, h.head.2, fun value => within_unlessFault value
      ⟨Nat.zero_le _, fun _ => trivial⟩⟩

/-- A rule that is activated pays for a decision in its body, if it is the guard. -/
theorem within_rule {head : RuleHead} {body : Option Node}
    (h : Affords d guard scope (Kind.rule head body).operands
      (k + if some n.id = guard then 1 else 0)) :
    (rule n head body).Within d guard scope k := by
  unfold rule
  split
  · exact ⟨Nat.zero_le _, fun _ => trivial⟩
  · refine ⟨Nat.zero_le _, fun _ => ?_⟩
    cases body with
    | none => trivial
    | some body => exact h.head

theorem within_logic {op : LogicOp} {left right : Option Node}
    (h : Affords d guard scope (Kind.logic op left right).operands k) :
    (logic n op left right).Within d guard scope k := by
  cases left with
  | none => exact within_invalid _
  | some left =>
    have hops : (Kind.logic op (some left) right).operands = left :: right.toList := by
      cases right <;> rfl
    rw [hops] at h
    refine within_eval h fun l _ h => within_unlessFault l (within_ite trivial ?_)
    cases right with
    | none => exact within_invalid _
    | some right => exact within_eval h fun r _ _ => within_unlessFault r trivial

theorem within_comparison {op : CompareOp} {left right : Option Node}
    (h : Affords d guard scope (Kind.comparison op left right).operands k) :
    (comparison n op left right).Within d guard scope k := by
  cases left with
  | none => exact within_invalid _
  | some left =>
    cases right with
    | none => exact within_invalid _
    | some right =>
      refine within_eval h fun l _ h => within_unlessFault l ?_
      refine within_eval h fun r _ _ => within_unlessFault r ?_
      unfold compared
      split
      · trivial
      · exact within_fail _ _

theorem within_chain {golf : Bool} {order : ChainOrder} {first second : Option Node}
    (h : Affords d guard scope (Kind.chain order first second).operands k) :
    (chain n golf order first second).Within d guard scope k := by
  cases first with
  | none => exact within_invalid _
  | some first =>
    cases second with
    | none => exact within_invalid _
    | some second =>
      refine within_eval h fun head _ h => within_unlessFault head (within_ite ?_ ?_)
      · exact ⟨Nat.zero_le _, fun _ => trivial⟩
      · exact within_eval h fun tail _ _ => within_unlessFault tail trivial

theorem within_settle (result : Except Fault Value)
    (h : ∀ fault, result = .error fault → fault.kind ≠ .recursion) :
    (settle n result h).Within d guard scope k := by
  cases result with
  | ok value => trivial
  | error fault => exact within_fail _ _

theorem within_arithmetic {op : ArithOp} {left right : Option Node}
    (h : Affords d guard scope (Kind.arithmetic op left right).operands k) :
    (arithmetic n op left right).Within d guard scope k := by
  cases left with
  | none => exact within_invalid _
  | some left =>
    have hops : (Kind.arithmetic op (some left) right).operands = left :: right.toList := by
      cases right <;> rfl
    rw [hops] at h
    refine within_eval h fun l _ h => within_unlessFault l (within_ite (within_settle _ _) ?_)
    cases right with
    | none => exact within_invalid _
    | some right =>
      exact within_eval h fun r _ _ => within_unlessFault r (within_settle _ _)

/-- A block evaluates its statements in order, until one of them ends it. -/
theorem within_block {statements : List Node} (h : Affords d guard scope statements k)
    (last : Value) : (block last statements).Within d guard scope k := by
  induction statements generalizing last k with
  | nil => trivial
  | cons statement rest ih =>
    exact within_eval h fun value _ h => within_ite trivial (ih h value)

/-- A plan asks for each operand at most once. So it gets by with its price and the costs of the
children. The activation of the guard pays for one decision, and calls of rules cost nothing. -/
theorem within_ofNode {σ : Type} {ctx : EvalContext σ} (hscope : Closed ctx scope) (hn : scope n)
    (hcalls : ∀ {name rule}, ctx.rules.find? name = some rule → Eval.cost d guard rule = 0)
    (hrule : n.kind.rule?.isSome →
      (n.childNodes.map (Eval.cost d guard)).sum ≤ k + if some n.id = guard then 1 else 0)
    (hother : n.kind.rule? = none →
      (if n.id = d then 1 else 0) + (n.childNodes.map (Eval.cost d guard)).sum ≤ k) :
    (ofNode ctx n).Within d guard scope k := by
  have hall {left : Nat} (hleft : (n.childNodes.map (Eval.cost d guard)).sum ≤ left) :
      Affords d guard scope n.childNodes left :=
    ⟨fun c hc => hscope.children hn hc, hleft⟩
  have hoperands {left : Nat} (hleft : (n.childNodes.map (Eval.cost d guard)).sum ≤ left) :
      Affords d guard scope n.kind.operands left :=
    (hall hleft).sublist (List.sublist_append_left _ _)
  have hchildren (hleft : (n.childNodes.map (Eval.cost d guard)).sum ≤ k) :
      Affords d guard scope n.children k :=
    (hall hleft).sublist (List.sublist_append_right _ _)
  -- Only rules may spend more than the budget, since they may pay for a decision.
  have hcost (hnone : n.kind.rule? = none) :
      (n.childNodes.map (Eval.cost d guard)).sum ≤ k :=
    (Nat.le_add_left _ _).trans (hother hnone)
  unfold ofNode
  cases hk : n.kind with
  | rule head body =>
    rw [hk] at hrule hoperands
    exact within_rule (hoperands (hrule rfl))
  | decision condition yes no =>
    rw [hk] at hother hoperands
    have hprice := hother rfl
    exact within_decision (by omega) (hoperands (by omega))
  | consequence c =>
    rw [hk] at hcost
    exact within_ite (within_assignment (hchildren (hcost rfl)) _)
      ⟨Nat.zero_le _, fun _ => trivial⟩
  | logic op left right =>
    rw [hk] at hcost hoperands
    exact within_logic (hoperands (hcost rfl))
  | comparison op left right =>
    rw [hk] at hcost hoperands
    exact within_comparison (hoperands (hcost rfl))
  | chain order first second =>
    rw [hk] at hcost hoperands
    exact within_chain (hoperands (hcost rfl))
  | arithmetic op left right =>
    rw [hk] at hcost hoperands
    exact within_arithmetic (hoperands (hcost rfl))
  | block =>
    rw [hk] at hcost
    exact within_block (hchildren (hcost rfl)) _
  | ruleCall name =>
    dsimp only
    split
    · next rule hfind =>
      exact ⟨hscope.rules hfind, by rw [hcalls hfind]; exact Nat.zero_le k, fun _ => trivial⟩
    · exact within_invalid _
  | identifier name => exact ⟨Nat.zero_le _, fun _ => trivial⟩
  | literal l => trivial
  | extension tag => exact within_fail _ _

end Budgets

end Plan

/-! ## Computations within a budget -/

section Computations

variable {σ α β : Type} {ctx : EvalContext σ} {d : NodeId} {guard : Option NodeId} {k l : Nat}
  {s t u : EvalState σ}

/-- Between two states, no more decisions were made than a budget and the activations of the guard
pay for. -/
def Stays (d : NodeId) (guard : Option NodeId) (k : Nat) (s t : EvalState σ) : Prop :=
  t.trace.decisions d + guard.elim 0 s.marks.count ≤
    s.trace.decisions d + guard.elim 0 t.marks.count + k

/-- The same for what a computation left, with a value or with an error. -/
def Leaving (d : NodeId) (guard : Option NodeId) (k : Nat) (s : EvalState σ) :
    EStateM.Result Error (EvalState σ) α → Prop
  | .ok _ t => Stays d guard k s t
  | .error _ t => Stays d guard k s t

/-- A computation gets by with a budget. -/
def Spends (d : NodeId) (guard : Option NodeId) (k : Nat) (x : Eval σ α) : Prop :=
  ∀ s, Leaving d guard k s (EStateM.run x s)

theorem Stays.trans (h : Stays d guard k s t) (h' : Stays d guard l t u) :
    Stays d guard (k + l) s u := by
  unfold Stays at *
  omega

theorem Stays.leaving {r : EStateM.Result Error (EvalState σ) α} (h : Stays d guard k s t)
    (hr : Leaving d guard l t r) : Leaving d guard (k + l) s r := by
  cases r with
  | ok a u => exact h.trans hr
  | error e u => exact h.trans hr

theorem Spends.mono {x : Eval σ α} (h : Spends d guard k x) (hkl : k ≤ l) :
    Spends d guard l x := by
  intro s
  have hs := h s
  revert hs
  cases EStateM.run x s <;> exact fun hs => Nat.le_trans hs (Nat.add_le_add_left hkl _)

theorem Spends.pure (a : α) : Spends d guard k (pure a : Eval σ α) :=
  fun _ => Nat.le_add_right _ _

theorem Spends.bind {x : Eval σ α} {f : α → Eval σ β} (hx : Spends d guard k x)
    (hf : ∀ a, Spends d guard l (f a)) : Spends d guard (k + l) (x >>= f) := by
  intro s
  have h := hx s
  rw [EStateM.run_bind]
  cases hs : EStateM.run x s with
  | ok a t =>
    rw [hs] at h
    exact h.leaving (hf a t)
  | error e t =>
    rw [hs] at h
    exact Nat.le_trans h (Nat.add_le_add_left (Nat.le_add_right k l) _)

/-! ### Recordings -/

/-- A recording adds an entry about a decision at most if it is about one. -/
theorem decisions_perform_le (t : Trace) (r : Trace.Recording) :
    (t.perform r).decisions d ≤
      t.decisions d + if r.event.kind = .decision ∧ r.node = some d then 1 else 0 := by
  obtain ⟨held, e, hlist, hheld, hevent, hnode⟩ := t.exists_toList_perform r
  rw [Trace.decisions, hlist, List.countP_append, List.countP_singleton]
  refine Nat.add_le_add (hheld.sublist.countP_le) (Nat.le_of_eq ?_)
  simp [Trace.isOfKind, TraceEntry.kind, hevent, hnode, and_comm]

theorem decisions_record_le {f : Trace → Trace}
    (h : (f s.trace).decisions d ≤ s.trace.decisions d + k) :
    (s.record ctx f).trace.decisions d ≤ s.trace.decisions d + k := by
  rw [EvalState.record_trace]
  split
  · exact h
  · exact Nat.le_add_right _ _

/-- Recordings of other kinds are free. -/
theorem decisions_record_perform_le {trace : Trace} (hs : s.trace = trace) (r : Trace.Recording)
    (hr : r.event.kind ≠ .decision) :
    (s.record ctx (·.perform r)).trace.decisions d ≤ trace.decisions d := by
  subst hs
  have h := decisions_perform_le (d := d) s.trace r
  rw [if_neg fun hdecision => hr hdecision.1] at h
  exact decisions_record_le (k := 0) (f := fun t => t.perform r) h

/-- An action keeps to its price and pays for its gain. -/
theorem Act.apply_stays (a : Act) (s : EvalState σ) :
    (a.apply ctx s).2.trace.decisions d + guard.elim 0 s.marks.count + a.gain guard ≤
      s.trace.decisions d + guard.elim 0 (a.apply ctx s).2.marks.count + a.price d := by
  cases a with
  | read name => exact Nat.le_refl _
  | fail n fault h =>
    have htrace : (s.failed ctx n fault).trace.decisions d ≤ s.trace.decisions d :=
      decisions_record_perform_le rfl (.error (some n.id) fault) (by rintro ⟨⟩)
    have hmarks : (s.failed ctx n fault).marks = s.marks := EvalState.record_marks _ _ _
    simp only [apply, gain, price, hmarks]
    omega
  | decide n c value =>
    -- The entry about its condition is free.
    have hcondition := decisions_perform_le (d := d) s.trace (.condition c value)
    have hdecision := decisions_perform_le (d := d) (s.trace.perform (.condition c value))
      (.decision n (.ofBool value.isTruthy))
    have htrace : (s.decided ctx n c value).trace.decisions d ≤
        s.trace.decisions d + if n.id = d then 1 else 0 := by
      refine decisions_record_le (s := { s with stats := _ }) (f := fun t => _) ?_
      refine hdecision.trans ?_
      simpa [Trace.Recording.event, Trace.Recording.node, TraceEvent.kind] using hcondition
    have hmarks : (s.decided ctx n c value).marks = s.marks := EvalState.record_marks _ _ _
    simp only [apply, gain, price, hmarks]
    omega
  | assign n name value =>
    have htrace : (s.assigned ctx n name value).trace.decisions d ≤ s.trace.decisions d := by
      unfold EvalState.assigned
      exact decisions_record_perform_le rfl (.change _ _ _ _) (by rintro ⟨⟩)
    have hmarks : (s.assigned ctx n name value).marks = s.marks.execute n.id :=
      EvalState.record_marks _ _ _
    simp only [apply, gain, price, hmarks, Marks.count_execute]
    omega
  | perform n c =>
    have htrace : (s.performed ctx n c).trace.decisions d ≤ s.trace.decisions d := by
      unfold EvalState.performed
      exact decisions_record_perform_le rfl (.consequence _ _) (by rintro ⟨⟩)
    have hmarks : (s.performed ctx n c).marks = s.marks.execute n.id :=
      EvalState.record_marks _ _ _
    simp only [apply, gain, price, hmarks, Marks.count_execute]
    omega
  | activate n head =>
    have htrace : (s.activated ctx n head).trace.decisions d ≤ s.trace.decisions d := by
      unfold EvalState.activated
      exact decisions_record_perform_le rfl (.activation _ _ _) (by rintro ⟨⟩)
    have hmarks : guard.elim 0 s.marks.count + (if some n.id = guard then 1 else 0) ≤
        guard.elim 0 (s.activated ctx n head).marks.count := by
      have hactivate : (s.activated ctx n head).marks = s.marks.activate n.id :=
        EvalState.record_marks _ _ _
      rw [hactivate]
      cases guard with
      | none => simp
      | some g =>
        simp only [Option.elim_some, Option.some.injEq, Marks.count_activate]
        split
        · next h => rw [h]
        · exact Nat.le_refl _
    simp only [apply, gain, price]
    omega
  | remark n text =>
    have htrace : (s.record ctx (·.message (some n.id) text)).trace.decisions d ≤
        s.trace.decisions d :=
      decisions_record_perform_le rfl (.message (some n.id) text) (by rintro ⟨⟩)
    simp only [apply, gain, price, EvalState.record_marks]
    exact Nat.add_le_add_right htrace _

/-! ### Plans and nodes -/

theorem Spends.within {x : Eval σ α} (hx : Spends d guard k x) (rule : String) :
    Spends d guard k (within rule x) := by
  intro s
  have h := hx { s with active := rule :: s.active }
  simp only [EStateM.run, Eval.within] at h ⊢
  cases hs : x { s with active := rule :: s.active } with
  | ok a t => rw [hs] at h; exact h
  | error e t => rw [hs] at h; exact h

theorem abort_spends (n : Node) (e : Error) : Spends d guard k (abort ctx n e : Eval σ α) := by
  intro s
  have htrace : (s.record ctx (·.error (some n.id) (.ofError e))).trace.decisions d ≤
      s.trace.decisions d :=
    decisions_record_perform_le rfl (.error (some n.id) (.ofError e)) (by rintro ⟨⟩)
  show Stays d guard k s (s.record ctx (·.error (some n.id) (.ofError e)))
  rw [Stays, EvalState.record_marks]
  omega

/-- Entries about the beginning and the end of the evaluation of a node are free. -/
theorem Spends.bracket {x : Eval σ Value} (hx : Spends d guard k x) (n : Node) :
    Spends d guard k (bracket ctx n x) := by
  intro s
  have henter : (s.enter ctx n).trace.decisions d ≤ s.trace.decisions d :=
    decisions_record_perform_le rfl (.enter n) (by rintro ⟨⟩)
  have hentered : (s.enter ctx n).marks = s.marks := EvalState.record_marks _ _ _
  have hleave (t : EvalState σ) (value : Value) :
      Stays d guard 0 t (t.leave ctx n value) := by
    have htrace : (t.leave ctx n value).trace.decisions d ≤ t.trace.decisions d :=
      decisions_record_perform_le rfl (.exit n value) (by rintro ⟨⟩)
    have hleft : (t.leave ctx n value).marks = t.marks := EvalState.record_marks _ _ _
    rw [Stays, hleft]
    omega
  have h := hx (s.enter ctx n)
  have hstays {t : EvalState σ} (ht : Stays d guard k (s.enter ctx n) t) : Stays d guard k s t := by
    rw [Stays, hentered] at ht
    rw [Stays]
    omega
  simp only [EStateM.run, Eval.bracket] at h ⊢
  cases hs : x (s.enter ctx n) with
  | ok v t => rw [hs] at h; exact (hstays h).trans (hleave t v)
  | error e t => rw [hs] at h; exact (hstays h).trans (hleave t _)

variable {scope : Node → Prop} {run : Node → Eval σ Value}

/-- A plan that gets by with a budget does so when it is carried out. -/
theorem Plan.toEval_spends (hrun : ∀ m, scope m → Spends d guard (cost d guard m) (run m))
    {p : Plan} (hp : p.Within d guard scope k) : Spends d guard k (p.toEval ctx run) := by
  induction p generalizing k with
  | done value => exact .pure value
  | act a rest ih =>
    intro s
    have hact := @Act.apply_stays σ ctx d guard a s
    have hrest := ih _ (hp.2 (a.apply ctx s).1) (a.apply ctx s).2
    have hprice := hp.1
    show Leaving d guard k s
      (EStateM.run ((rest (a.apply ctx s).1).toEval ctx run) (a.apply ctx s).2)
    cases hs : EStateM.run ((rest (a.apply ctx s).1).toEval ctx run) (a.apply ctx s).2 with
    | ok v t =>
      rw [hs] at hrest
      simp only [Leaving, Stays] at hrest ⊢
      omega
    | error e t =>
      rw [hs] at hrest
      simp only [Leaving, Stays] at hrest ⊢
      omega
  | eval m rest ih =>
    obtain ⟨hscope, hcost, hrest⟩ := hp
    exact ((hrun m hscope).bind fun value => ih value (hrest value)).mono (by omega)
  | unlessRunning rule n rest ih =>
    intro s
    show Leaving d guard k s (EStateM.run
      (if s.active.contains rule then abort ctx n (.ruleLoop rule) else rest.toEval ctx run) s)
    split
    · exact abort_spends n _ s
    · exact ih hp s
  | under rule m => exact ((hrun m hp.1).within rule).mono hp.2

/-- Nodes whose evaluations cost what their parts cost. -/
structure Priced (ctx : EvalContext σ) (d : NodeId) (guard : Option NodeId)
    (scope : Node → Prop) : Prop where
  closed : Closed ctx scope
  calls : ∀ {name rule}, ctx.rules.find? name = some rule → cost d guard rule = 0
  rule : ∀ {n}, scope n → n.kind.rule?.isSome →
    (n.childNodes.map (cost d guard)).sum ≤ cost d guard n + if some n.id = guard then 1 else 0
  other : ∀ {n}, scope n → n.kind.rule? = none →
    (if n.id = d then 1 else 0) + (n.childNodes.map (cost d guard)).sum ≤ cost d guard n

/-- The evaluation of a node spends no more than it costs. -/
theorem node_spends (h : Priced ctx d guard scope) (levels : Nat) {n : Node} (hn : scope n) :
    Spends d guard (cost d guard n) (node ctx levels n) := by
  -- Induction on the levels below the ceiling, since a rule that is called is no part of the node.
  induction levels generalizing n with
  | zero => exact abort_spends n _
  | succ levels ih =>
    refine .bracket ?_ n
    rw [← Plan.toEval_ofNode]
    exact Plan.toEval_spends (fun m hm => ih hm)
      (Plan.within_ofNode h.closed hn h.calls (h.rule hn) (h.other hn))

end Computations

end Eval

end Rulebook
