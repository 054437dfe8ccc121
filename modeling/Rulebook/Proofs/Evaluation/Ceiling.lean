import Rulebook.Proofs.Evaluation.Folding

/-!
# A ceiling cuts evaluations short

Evaluations of one tree under two ceilings take the same steps until the lower one is hit. There
the evaluation under it ends, and what the other one still does comes on top.

## Main definitions

* `Host.Advances`: the services of a host never take back what was done
* `Eval.Shortened`: two results are the same, or the first one was cut off on the way to the second
* `Evaluator.withCeiling`: an evaluator with another ceiling

## Main results

* `Eval.node_shortens`: the evaluation under the lower ceiling is the other one, cut short
* `Evaluator.run_withCeiling`: the calls of services under the lower ceiling come first under the
  higher one, and everything is the same if the lower one is not hit
-/

namespace Rulebook

variable {σ : Type}

/-! ## Hosts that move on -/

/-- The services of a host lead from states to later ones. -/
structure Host.Advances (h : Host σ) (le : σ → σ → Prop) : Prop where
  refl : ∀ w, le w w
  trans : ∀ {u v w}, le u v → le v w → le u w
  read : ∀ name w, le w (h.read name w).2
  store : ∀ name value w, le w (h.store name value w).2
  perform : ∀ action kind w, le w (h.perform action kind w).2

/-- A host that notes the calls of its services only adds to the notes. -/
theorem Host.recorded_advances (h : Host σ) :
    h.recorded.Advances fun w w' => w.2 <+: w'.2 where
  refl _ := List.prefix_refl _
  trans := List.IsPrefix.trans
  read _ _ := List.prefix_append _ _
  store _ _ _ := List.prefix_append _ _
  perform _ _ _ := List.prefix_append _ _

theorem Host.advances_true (h : Host σ) : h.Advances fun _ _ => True :=
  ⟨fun _ => trivial, fun _ _ => trivial, fun _ _ => trivial, fun _ _ _ => trivial,
    fun _ _ _ => trivial⟩

/-- The same context under another ceiling. -/
def EvalContext.withCeiling (ctx : EvalContext σ) (limit : Nat) : EvalContext σ :=
  { ctx with settings := { ctx.settings with maxDepth := limit } }

namespace Eval

/-! ## Computations that are cut short -/

section Shortened

variable {α β : Type}

/-- The state that a computation ends in, with a value or with an error. -/
def final : EStateM.Result Error (EvalState σ) α → EvalState σ
  | .ok _ s => s
  | .error _ s => s

/-- Two results are the same, or the first one is an error on the way to the second. -/
inductive Shortened (e : Error) (le : σ → σ → Prop) :
    EStateM.Result Error (EvalState σ) α → EStateM.Result Error (EvalState σ) α → Prop
  | same (r) : Shortened e le r r
  | cut (s r) (h : le s.world (final r).world) : Shortened e le (.error e s) r

/-- The first computation is the second one, cut short, and the second one moves on from the state
it begins with. -/
def Shortens (e : Error) (le : σ → σ → Prop) (x y : Eval σ α) : Prop :=
  ∀ s, Shortened e le (EStateM.run x s) (EStateM.run y s) ∧
    le s.world (final (EStateM.run y s)).world

variable {e : Error} {le : σ → σ → Prop} {ctx : EvalContext σ}

/-- A computation is itself, cut short, if it moves on. -/
theorem Shortens.refl {x : Eval σ α} (hx : ∀ s, le s.world (final (EStateM.run x s)).world) :
    Shortens e le x x :=
  fun s => ⟨.same _, hx s⟩

/-- A change of states that keeps the host's. -/
theorem Shortens.modify (hhost : ctx.host.Advances le) {f : EvalState σ → EvalState σ}
    (hf : ∀ s, (f s).world = s.world) : Shortens e le (modify f) (modify f) := by
  refine .refl fun s => ?_
  show le s.world (f s).world
  rw [hf]
  exact hhost.refl _

theorem Shortens.bind (hhost : ctx.host.Advances le) {x y : Eval σ α} {f g : α → Eval σ β}
    (hx : Shortens e le x y) (hf : ∀ a, Shortens e le (f a) (g a)) :
    Shortens e le (x >>= f) (y >>= g) := by
  intro s
  obtain ⟨hxy, hadvance⟩ := hx s
  rw [EStateM.run_bind, EStateM.run_bind]
  generalize EStateM.run x s = r, EStateM.run y s = r' at hxy hadvance
  cases hxy with
  | same r =>
    cases r with
    | ok a t => exact ⟨(hf a t).1, hhost.trans hadvance (hf a t).2⟩
    | error e t => exact ⟨.same _, hadvance⟩
  | cut t _ h =>
    -- Only the second computation goes on.
    cases r' with
    | ok a u => exact ⟨.cut _ _ (hhost.trans h (hf a u).2), hhost.trans hadvance (hf a u).2⟩
    | error e u => exact ⟨.cut _ _ h, hadvance⟩

theorem Shortens.within (rule : String) {x y : Eval σ α} (hx : Shortens e le x y) :
    Shortens e le (within rule x) (within rule y) := by
  intro s
  have hxy := hx { s with active := rule :: s.active }
  simp only [EStateM.run, Eval.within] at hxy ⊢
  generalize x _ = r, y _ = r' at hxy
  obtain ⟨hxy, hadvance⟩ := hxy
  cases hxy with
  | same r => cases r <;> exact ⟨.same _, hadvance⟩
  | cut t _ h => cases r' <;> exact ⟨.cut _ _ h, hadvance⟩

theorem Shortens.bracket (n : Node) {x y : Eval σ Value} (hx : Shortens e le x y) :
    Shortens e le (bracket ctx n x) (bracket ctx n y) := by
  intro s
  have hxy := hx (s.enter ctx n)
  simp only [EStateM.run, Eval.bracket] at hxy ⊢
  generalize x _ = r, y _ = r' at hxy
  obtain ⟨hxy, hadvance⟩ := hxy
  have hadvance : le s.world (final r').world := by simpa [EvalState.enter] using hadvance
  cases hxy with
  | same r =>
    cases r <;> exact ⟨.same _, by simpa [EvalState.leave, final] using hadvance⟩
  | cut t _ h =>
    cases r' <;> exact ⟨.cut _ _ (by simpa [EvalState.leave, final] using h),
      by simpa [EvalState.leave, final] using hadvance⟩

theorem Shortens.ite {c : Prop} [Decidable c] {x x' y y' : Eval σ α} (hx : Shortens e le x y)
    (hx' : Shortens e le x' y') : Shortens e le (if c then x else x') (if c then y else y') := by
  split
  · exact hx
  · exact hx'

end Shortened

/-! ## Nodes -/

section Nodes

variable {e : Error} {le : σ → σ → Prop} {ctx : EvalContext σ}

theorem abort_shortens (hhost : ctx.host.Advances le) {α : Type} (n : Node) (err : Error) :
    Shortens e le (abort ctx n err : Eval σ α) (abort ctx n err) := by
  refine .refl fun s => ?_
  show le s.world (s.record ctx (·.error (some n.id) (.ofError err))).world
  rw [EvalState.record_world]
  exact hhost.refl _

/-- Being cut short is kept by putting computations together. -/
theorem shortens_congruence (hhost : ctx.host.Advances le) (limit : Nat) :
    Congruence ctx (ctx.withCeiling limit) Eq fun _ x y => Shortens e le x y where
  golf := rfl
  pure a := .refl fun _ => hhost.refl _
  bind := .bind hhost
  read name := .refl fun s => hhost.read name s.world
  fail := by
    rintro n _ rfl kind message
    refine .refl fun s => ?_
    show le s.world (s.record ctx _).world
    rw [EvalState.record_world]
    exact hhost.refl _
  decide := by
    rintro n _ c _ rfl rfl value
    exact .modify hhost fun s => by simp [EvalState.decided]
  assign := by
    rintro n _ rfl name value
    refine .refl fun s => ?_
    show le s.world (s.assigned ctx n name value).world
    simpa [EvalState.assigned] using hhost.store name value s.world
  perform := by
    rintro n _ rfl c c' haction hkind
    unfold consequence
    rw [haction, hkind]
    refine .refl fun s => ?_
    show le s.world (s.performed ctx n c).world
    simpa [EvalState.performed] using hhost.perform c.action c.kind s.world
  remark := by
    rintro n _ rfl text
    exact .modify hhost fun s => EvalState.record_world ctx _ s
  activate := by
    rintro n _ rfl head head' hname
    simp only [EvalState.activated, hname]
    exact .modify hhost fun s => by simp
  unlessRunning := by
    rintro n _ rfl α rule x y hxy
    refine Shortens.bind hhost (.refl fun _ => hhost.refl _) fun s => ?_
    exact .ite (abort_shortens hhost n _) hxy
  within := .within

/-- The evaluation of a node under a ceiling is the one under a higher ceiling, cut short, if it
is where the lower ceiling is hit. -/
theorem node_shortens_of_zero (hhost : ctx.host.Advances le) {limit above : Nat}
    (hzero : ∀ n, Shortens e le (node ctx 0 n) (node (ctx.withCeiling limit) above n))
    (levels : Nat) (n : Node) :
    Shortens e le (node ctx levels n) (node (ctx.withCeiling limit) (levels + above) n) := by
  -- Induction on the levels of the evaluation, since a rule that is called is no part of the node.
  induction levels generalizing n with
  | zero => rw [Nat.zero_add]; exact hzero n
  | succ levels ih =>
    rw [Nat.succ_add]
    exact .bracket n ((shortens_congruence hhost limit).step_self rfl ih n)

/-- The evaluation of a node moves on, however it ends. -/
theorem node_advances (hhost : ctx.host.Advances le) (levels : Nat) (n : Node)
    (s : EvalState σ) : le s.world (final (EStateM.run (node ctx levels n) s)).world := by
  -- It is itself, cut short.
  have hself (m : Node) : Shortens (ceiling ctx.settings) le (node ctx 0 m)
      (node (ctx.withCeiling ctx.settings.maxDepth) 0 m) := abort_shortens hhost m _
  exact (node_shortens_of_zero hhost hself levels n s).2

/-- The evaluation of a node is the one under a higher ceiling, cut short. -/
theorem node_shortens (hhost : ctx.host.Advances le) (levels above limit : Nat) (n : Node) :
    Shortens (ceiling ctx.settings) le (node ctx levels n)
      (node (ctx.withCeiling limit) (levels + above) n) := by
  refine node_shortens_of_zero hhost (fun m s => ?_) levels n
  have hhost' : (ctx.withCeiling limit).host.Advances le := hhost
  have hadvance := node_advances hhost' above m s
  refine ⟨.cut _ _ ?_, hadvance⟩
  show le (s.record ctx (·.error (some m.id) (.ofError (ceiling ctx.settings)))).world _
  rw [EvalState.record_world]
  exact hadvance

end Nodes

end Eval

/-! ## Runs -/

namespace Evaluator

/-- An evaluator with another ceiling. -/
def withCeiling (e : Evaluator) (limit : Nat) : Evaluator :=
  { e with settings := { e.settings with maxDepth := limit } }

variable (e : Evaluator) (host : Host σ) (root : Node) (world : σ)

theorem run_world :
    (e.run host root world).world = (Eval.final (e.outcome host root world)).world := by
  rw [run_eq]
  cases e.outcome host root world <;> rfl

theorem outcome_withCeiling {le : σ → σ → Prop} (hhost : host.Advances le) {low high : Nat}
    (hle : low ≤ high) :
    Eval.Shortened (.tooDeep "evaluator" low) le ((e.withCeiling low).outcome host root world)
      ((e.withCeiling high).outcome host root world) := by
  obtain ⟨above, rfl⟩ := Nat.exists_eq_add_of_le hle
  let ctx : EvalContext σ := ⟨host, (e.withCeiling low).settings, root.ruleTable⟩
  have hctx : ctx.host.Advances le := hhost
  exact (Eval.node_shortens hctx low above (low + above) root (e.start ctx world)).1

/-- **A ceiling only cuts an evaluation short.** The calls of services under a ceiling are the
first ones under a higher ceiling. If no fault says that the ceiling was hit, then the value, the
state of the host, the counters, the faults, the trace, the explanation and the tree are the same
under both. -/
theorem run_withCeiling {low high : Nat} (hle : low ≤ high) :
    (e.withCeiling low).calls host root world <+: (e.withCeiling high).calls host root world ∧
      (let r := (e.withCeiling low).run host root world
      .ofError (.tooDeep "evaluator" low) ∉ r.evaluator.faults →
        (e.withCeiling high).run host root world =
          { r with evaluator := r.evaluator.withCeiling high }) := by
  constructor
  · -- The calls are the state of a host that notes them, and what was noted stays.
    have h := e.outcome_withCeiling host.recorded root (world, []) host.recorded_advances hle
    rw [calls, calls, run_world, run_world]
    generalize (e.withCeiling low).outcome _ _ _ = r, (e.withCeiling high).outcome _ _ _ = r' at h
    cases h with
    | same r => exact List.prefix_refl _
    | cut s _ h => exact h
  · intro r hr
    have h := e.outcome_withCeiling host root world host.advances_true hle
    simp only [r, run_eq] at hr ⊢
    generalize (e.withCeiling low).outcome _ _ _ = o,
      (e.withCeiling high).outcome _ _ _ = o' at h hr
    cases h with
    | same o => cases o <;> rfl
    | cut s _ h => exact absurd Array.mem_push_self hr

/-- Four levels are enough for the first two calls only, and from five on nothing changes. -/
theorem run_withCeiling_scoring :
    let e := ofSettings {}
    let r := (e.withCeiling 5).run Environment.host scoring {}
    ((e.withCeiling 4).calls Environment.host scoring {}).length = 2 ∧
      ((e.withCeiling 5).calls Environment.host scoring {}).length = 3 ∧
      (e.withCeiling 4).calls Environment.host scoring {} <+:
        (e.withCeiling 5).calls Environment.host scoring {} ∧
      r.evaluator.trace.size = 29 ∧
      (e.withCeiling 6).run Environment.host scoring {} =
        { r with evaluator := r.evaluator.withCeiling 6 } := by
  have hfaults : ((ofSettings {}).withCeiling 5 |>.run Environment.host scoring {}).evaluator.faults
      = #[] := by decide +kernel
  refine ⟨by decide +kernel, by decide +kernel, (run_withCeiling _ _ _ _ (by decide)).1,
    by decide +kernel, (run_withCeiling _ _ _ _ (by decide)).2 ?_⟩
  rw [hfaults]
  exact Array.not_mem_empty _

end Evaluator

end Rulebook
