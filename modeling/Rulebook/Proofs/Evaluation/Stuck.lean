import Rulebook.Proofs.Evaluation.Folding
import Rulebook.Proofs.Node.Normal

/-!
# What folding leaves to evaluations

An operation on literals that folding does not replace has no value that is a constant. All values
of operators on constants are constants or faults, so its evaluation comes to a fault, or does not
come to a value at all.

## Main definitions

* `Eval.EndsInFault`, `Eval.Faults`: evaluations that come to a fault, or to the ceiling of depth

## Main results

* `Eval.node_faults`: an irreducible operation on literals comes to a fault
* `Node.foldConstants_normal`: folding leads to a normal form in one pass
-/

namespace Rulebook

variable {σ : Type}

/-- The values of operators on any values are constants. -/
theorem ArithOp.isSome_ofValue?_of_apply {op : ArithOp} {left : Value} {right : Option Value}
    {v : Value} (h : op.apply left right = .ok v) : (Literal.ofValue? v).isSome = true := by
  unfold ArithOp.apply at h
  split at h
  · cases h; rfl
  · cases h
  · cases h; rfl
  · next x y =>
    cases op with
    | add | sub | mul | neg => cases h; rfl
    | div | mod =>
      simp only [ArithOp.onNumbers] at h
      split at h
      · cases h
      · cases h; rfl
  · cases h
  · cases h

namespace Eval

section Faults

variable {ctx : EvalContext σ}

/-- An evaluation came to a fault, or hit the ceiling of depth. -/
inductive EndsInFault (settings : EvalSettings) : EStateM.Result Error (EvalState σ) Value → Prop
  | fault (f : Fault) (s : EvalState σ) : EndsInFault settings (.ok (.fault f) s)
  | ceiling (s : EvalState σ) :
    EndsInFault settings (.error (.tooDeep "evaluator" settings.maxDepth) s)

/-- An evaluation comes to a fault or to the ceiling of depth, from whatever state. -/
def Faults (ctx : EvalContext σ) (x : Eval σ Value) : Prop :=
  ∀ s, EndsInFault ctx.settings (EStateM.run x s)

theorem fail_faults (n : Node) (kind : ErrorKind) (message : String) :
    Faults ctx (fail ctx n kind message) :=
  fun _ => .fault _ _

theorem bracket_faults {x : Eval σ Value} (n : Node) (h : Faults ctx x) :
    Faults ctx (bracket ctx n x) := by
  intro s
  have hx := h (s.enter ctx n)
  simp only [EStateM.run, bracket] at hx ⊢
  generalize x _ = r at hx
  cases hx with
  | fault f t => exact .fault f _
  | ceiling t => exact .ceiling _

/-- Behind an operand that is a literal, its value is known. -/
theorem operand_faults {operand : Node} {l : Literal} (hk : operand.kind = .literal l)
    {levels : Nat} {f : Value → Eval σ Value} (hf : Faults ctx (f l.value)) :
    Faults ctx (node ctx levels operand >>= fun v => if v.isFault then pure v else f v) := by
  intro s
  rw [EStateM.run_bind]
  cases levels with
  | zero => exact .ceiling _
  | succ levels =>
    rw [node, step, hk]
    have h := hf ((s.enter ctx operand).leave ctx operand l.value)
    rw [← ite_isFault_literal l (pure l.value) (f l.value)] at h
    exact h

variable {n : Node}

/-- The operands of a node are literals. -/
def OnLiterals (n : Node) : Prop :=
  ∀ c ∈ n.kind.operands, ∃ l, c.kind = .literal l

theorem literalValue?_of_literal {n : Node} {l : Literal} (h : n.kind = .literal l) :
    Node.literalValue? (some n) = some l.value := by
  rw [Node.literalValue?, h]

theorem comparison_faults {op : CompareOp} {left right : Option Node}
    (hk : n.kind = .comparison op left right) (hn : n.Irreducible) (hl : OnLiterals n)
    (levels : Nat) : Faults ctx (comparison ctx (node ctx levels) n op left right) := by
  rw [OnLiterals, hk] at hl
  cases left with
  | none => exact fail_faults _ _ _
  | some left =>
    cases right with
    | none => exact fail_faults _ _ _
    | some right =>
      obtain ⟨l, hkl⟩ := hl left (by simp [Kind.operands, Kind.slots])
      obtain ⟨r, hkr⟩ := hl right (by simp [Kind.operands, Kind.slots])
      refine operand_faults hkl (operand_faults hkr ?_)
      have hvalue : op.apply l.value r.value = none := by
        simp only [Node.Irreducible, Node.constant?, hk, literalValue?_of_literal hkl,
          literalValue?_of_literal hkr, Option.bind_eq_bind, Option.bind_some] at hn
        cases h : op.apply l.value r.value with
        | none => rfl
        | some b =>
          rw [h] at hn
          cases hn
      rw [hvalue]
      exact fail_faults _ _ _

theorem logic_faults {op : LogicOp} {left right : Option Node}
    (hk : n.kind = .logic op left right) (hn : n.Irreducible) (hl : OnLiterals n)
    (levels : Nat) : Faults ctx (logic ctx (node ctx levels) n op left right) := by
  rw [OnLiterals, hk] at hl
  cases left with
  | none => exact fail_faults _ _ _
  | some left =>
    obtain ⟨l, hkl⟩ := hl left (by simp [Kind.operands, Kind.slots])
    refine operand_faults hkl ?_
    simp only [Node.Irreducible, Node.constant?, hk, literalValue?_of_literal hkl,
      Option.bind_eq_bind, Option.bind_some] at hn
    -- A first operand that decides makes the node a constant, and so does a second one.
    have hright (h : ((Node.literalValue? right).map fun r => Value.bool r.isTruthy).bind
        Literal.ofValue? = none) : right = none := by
      cases right with
      | none => rfl
      | some right =>
        obtain ⟨r, hkr⟩ := hl right (by simp [Kind.operands, Kind.slots])
        rw [literalValue?_of_literal hkr] at h
        cases h
    cases op with
    | not => cases hn
    | and =>
      cases ht : l.value.isTruthy with
      | true =>
        simp only [ht, if_true] at hn
        obtain rfl := hright hn
        simpa using fail_faults _ _ _
      | false =>
        simp only [ht] at hn
        cases hn
    | or =>
      cases ht : l.value.isTruthy with
      | true =>
        simp only [ht, if_true] at hn
        cases hn
      | false =>
        simp only [ht] at hn
        obtain rfl := hright hn
        simpa using fail_faults _ _ _

/-- The value of an operator that is no constant is a fault. -/
theorem settle_faults {op : ArithOp} {left : Value} {right : Option Value}
    (h : (op.apply left right).toOption.bind Literal.ofValue? = none) :
    Faults ctx (settle ctx n (op.apply left right)) := by
  cases happly : op.apply left right with
  | ok v =>
    rw [happly] at h
    have hsome := ArithOp.isSome_ofValue?_of_apply happly
    rw [show Literal.ofValue? v = none from h] at hsome
    cases hsome
  | error fault => exact fail_faults _ _ _

theorem arithmetic_faults {op : ArithOp} {left right : Option Node}
    (hk : n.kind = .arithmetic op left right) (hn : n.Irreducible) (hl : OnLiterals n)
    (levels : Nat) : Faults ctx (arithmetic ctx (node ctx levels) n op left right) := by
  rw [OnLiterals, hk] at hl
  cases left with
  | none => exact fail_faults _ _ _
  | some left =>
    obtain ⟨l, hkl⟩ := hl left (by simp [Kind.operands, Kind.slots])
    refine operand_faults hkl ?_
    simp only [Node.Irreducible, Node.constant?, hk, literalValue?_of_literal hkl,
      Option.bind_eq_bind, Option.bind_some] at hn
    by_cases hneg : op = .neg
    · -- A sign change has the same value with a second operand and without.
      subst hneg
      rw [if_pos rfl]
      refine settle_faults ?_
      cases right with
      | none => exact hn
      | some right =>
        obtain ⟨r, hkr⟩ := hl right (by simp [Kind.operands, Kind.slots])
        simp only [literalValue?_of_literal hkr, Option.bind_some] at hn
        rwa [apply_neg] at hn
    · rw [if_neg hneg]
      cases right with
      | none => exact fail_faults _ _ _
      | some right =>
        obtain ⟨r, hkr⟩ := hl right (by simp [Kind.operands, Kind.slots])
        simp only [literalValue?_of_literal hkr, Option.bind_some] at hn
        exact operand_faults hkr (settle_faults hn)

/-- An operation on literals that folding leaves as it is comes to a fault. -/
theorem node_faults (hop : n.kind.isOperation = true) (hn : n.Irreducible) (hl : OnLiterals n)
    (levels : Nat) : Faults ctx (node ctx levels n) := by
  cases levels with
  | zero => exact fun _ => .ceiling _
  | succ levels =>
    rw [node, step]
    refine bracket_faults n ?_
    cases hk : n.kind with
    | logic op left right => exact logic_faults hk hn hl levels
    | comparison op left right => exact comparison_faults hk hn hl levels
    | arithmetic op left right => exact arithmetic_faults hk hn hl levels
    | _ => rw [hk] at hop; cases hop

end Faults

end Eval

namespace Node

/-- **One pass of folding leads to a normal form.** A tree that is too deep is refused, and stays as
it is. Any other tree can be folded; the folded tree is no deeper and has no more nodes, and folding
it once more finds nothing to do. An operation that it still has and whose operands are literals
comes to a fault wherever it is evaluated, unless the evaluation hits the ceiling of depth. -/
theorem foldConstants_normal (n : Node) :
    (maxTreeDepth < n.depth →
      n.foldConstants = .error (.tooDeep "optimizer" maxTreeDepth) ∧ n.folded = n) ∧
    (n.depth ≤ maxTreeDepth → ∃ m k, n.foldConstants = .ok (m, k) ∧
      m.depth ≤ n.depth ∧ m.count ≤ n.count ∧ m.foldConstants = .ok (m, 0) ∧
      ∀ r ∈ m.nodes, r.kind.isOperation = true →
        (∀ operand ∈ r.kind.operands, ∃ l, operand.kind = .literal l) →
        ∀ (σ : Type) (ctx : EvalContext σ) (levels : Nat) (s : EvalState σ),
          (∃ f t, EStateM.run (Eval.node ctx levels r) s = .ok (.fault f) t) ∨
            ∃ t, EStateM.run (Eval.node ctx levels r) s =
              .error (.tooDeep "evaluator" ctx.settings.maxDepth) t) := by
  refine ⟨fun hlt => ⟨foldConstants_of_lt hlt, ?_⟩, fun hle => ?_⟩
  · rw [folded, foldConstants_of_lt hlt]
  have hnormal := normal_fold hle
  have hdepth := depth_fold_le maxTreeDepth n
  refine ⟨n.fold maxTreeDepth, _, foldConstants_of_le hle, hdepth, ?_, ?_, ?_⟩
  · rw [count_eq, count_eq]
    exact length_nodes_fold_le maxTreeDepth n
  · rw [foldConstants_of_le (hdepth.trans hle), fold, hnormal.foldLevels_eq]
  · intro r hr hop hl σ ctx levels s
    have hfaults : Eval.Faults ctx (Eval.node ctx levels r) :=
      Eval.node_faults hop (hnormal r hr) hl levels
    have hends := hfaults s
    generalize EStateM.run (Eval.node ctx levels r) s = result at hends
    cases hends with
    | fault f t => exact .inl ⟨f, t, rfl⟩
    | ceiling t => exact .inr ⟨t, rfl⟩

/-- A constant that is negated a number of times. -/
def negations : Nat → Node
  | 0 => linked ⟨0⟩ (.literal (.bool true)) []
  | count + 1 => linked ⟨count + 1⟩ (.logic .not (some (negations count)) none) []

theorem depth_negations (count : Nat) : (negations count).depth = 1 + count := by
  induction count with
  | zero => exact depth_linked ⟨0⟩ (.literal (.bool true)) []
  | succ count ih =>
    calc (negations (count + 1)).depth = 1 + tallest [negations count] :=
          depth_linked ⟨count + 1⟩ (.logic .not (some (negations count)) none) []
      _ = 1 + (negations count).depth := by simp [tallest]
      _ = 1 + (count + 1) := by rw [ih, Nat.add_comm count]

/-- `!true == null`, two sides that cannot be compared. -/
def mismatch : Node :=
  linked ⟨3⟩ (.comparison .eq (some (negations 1)) (some (linked ⟨2⟩ (.literal .null) []))) []

/-- A row of negations can be too deep. Of a comparison that has no value the sides are folded, and
it still comes to a fault. -/
theorem foldConstants_normal_negations :
    (maxTreeDepth < (negations 1024).depth ∧
      (negations 1024).foldConstants = .error (.tooDeep "optimizer" maxTreeDepth)) ∧
    mismatch.depth ≤ maxTreeDepth ∧
    ∃ m k, mismatch.foldConstants = .ok (m, k) ∧ m.foldConstants = .ok (m, 0) ∧
      m.kind.isOperation = true ∧
      ∀ (σ : Type) (ctx : EvalContext σ) (levels : Nat) (s : EvalState σ),
        (∃ f t, EStateM.run (Eval.node ctx levels m) s = .ok (.fault f) t) ∨
          ∃ t, EStateM.run (Eval.node ctx levels m) s =
            .error (.tooDeep "evaluator" ctx.settings.maxDepth) t := by
  have hdeep : maxTreeDepth < (negations 1024).depth := by
    rw [depth_negations]
    decide
  have hlow : mismatch.depth ≤ maxTreeDepth := by decide +kernel
  obtain ⟨m, k, hfold, -, -, hagain, hstuck⟩ := (foldConstants_normal mismatch).2 hlow
  -- The first side is folded, and the comparison is not.
  have hkind : ∃ a b x y, m.kind = .comparison .eq (some a) (some b) ∧
      a.kind = .literal x ∧ b.kind = .literal y := by
    rw [foldConstants_of_le hlow] at hfold
    cases hfold
    exact ⟨_, _, _, _, rfl, rfl, rfl⟩
  obtain ⟨a, b, x, y, hm, ha, hb⟩ := hkind
  have hop : m.kind.isOperation = true := by rw [hm]; rfl
  refine ⟨⟨hdeep, ((foldConstants_normal _).1 hdeep).1⟩, hlow, m, k, hfold, hagain, hop, ?_⟩
  refine hstuck m m.mem_nodes_self hop ?_
  rw [hm]
  simp [Kind.operands, Kind.slots, ha, hb]

end Node

end Rulebook
