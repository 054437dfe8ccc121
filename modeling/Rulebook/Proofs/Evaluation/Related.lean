import Rulebook.Proofs.Evaluation.Congruence

/-!
# Evaluations in related states

Two evaluations that start in related states and do the same, each at its own nodes, come to the
same value or end with the same error, again in related states. It is enough that the relation is
kept by the single moves: whether states agree but for their traces, but for what a host keeps to
itself, or but for the identities of nodes, the computations around the moves are the same.

## Main definitions

* `Eval.Related`: from related states two computations come to the same, in related states
* `Eval.Keeps`: the moves of two evaluations keep a relation between states

## Main results

* `Eval.Keeps.congruence`: moves that keep a relation make up computations that do
* `Eval.Keeps.node`: so do the evaluations of nodes of the same shape
-/

namespace Rulebook

/-- The value of a consequence that was answered by the host. -/
def Consequence.outcome (c : Consequence) (response : Response) : Value :=
  .outcome ⟨c.action, c.kind, response.success, response.value, response.message⟩

namespace Eval

variable {σ τ : Type}

/-! ## Computations -/

section Computations

variable {α β : Type}

/-- Two results are the same value, or the same error, in related states. -/
inductive Matching (S : EvalState σ → EvalState τ → Prop) :
    EStateM.Result Error (EvalState σ) α → EStateM.Result Error (EvalState τ) α → Prop where
  | ok {s : EvalState σ} {t : EvalState τ} (a : α) (h : S s t) : Matching S (.ok a s) (.ok a t)
  | error {s : EvalState σ} {t : EvalState τ} (e : Error) (h : S s t) :
      Matching S (.error e s) (.error e t)

/-- From related states, two computations come to the same, in related states. -/
def Related (S : EvalState σ → EvalState τ → Prop) (x : Eval σ α) (y : Eval τ α) : Prop :=
  ∀ s t, S s t → Matching S (EStateM.run x s) (EStateM.run y t)

variable {S : EvalState σ → EvalState τ → Prop}

/-- Computations that come to the same in the same states are the same. -/
theorem Related.eq {x y : Eval σ α} (h : Related Eq x y) : x = y := by
  funext s
  have hs := h s s rfl
  simp only [EStateM.run] at hs
  generalize x s = r, y s = r' at hs
  cases hs with
  | ok a h => rw [h]
  | error e h => rw [h]

theorem Related.pure (a : α) : Related S (pure a) (pure a) :=
  fun _ _ h => .ok a h

theorem Related.bind {x : Eval σ α} {y : Eval τ α} {f : α → Eval σ β} {g : α → Eval τ β}
    (hx : Related S x y) (hf : ∀ a, Related S (f a) (g a)) : Related S (x >>= f) (y >>= g) := by
  intro s t h
  have hxy := hx s t h
  rw [EStateM.run_bind, EStateM.run_bind]
  generalize EStateM.run x s = r, EStateM.run y t = r' at hxy
  cases hxy with
  | ok a h => exact hf a _ _ h
  | error e h => exact .error e h

theorem Related.ite {c : Prop} [Decidable c] {x x' : Eval σ α} {y y' : Eval τ α}
    (hx : Related S x y) (hx' : Related S x' y') :
    Related S (if c then x else x') (if c then y else y') := by
  split
  · exact hx
  · exact hx'

theorem Related.modify {f : EvalState σ → EvalState σ} {g : EvalState τ → EvalState τ}
    (h : ∀ {s t}, S s t → S (f s) (g t)) : Related S (modify f) (modify g) :=
  fun _ _ hst => .ok () (h hst)

/-- Computations that depend on the state that they begin with. -/
theorem Related.get {x : EvalState σ → Eval σ α} {y : EvalState τ → Eval τ α}
    (h : ∀ {s t}, S s t → Related S (x s) (y t)) :
    Related S (MonadState.get >>= x) (MonadState.get >>= y) :=
  fun s t hst => h hst s t hst

end Computations

/-! ## Moves -/

/-- The moves of two evaluations, at paired nodes, keep a relation between states. -/
structure Keeps (ctx : EvalContext σ) (ctx' : EvalContext τ) (P : Node → Node → Prop)
    (S : EvalState σ → EvalState τ → Prop) : Prop where
  golf : ctx'.settings.golf = ctx.settings.golf
  maxDepth : ctx'.settings.maxDepth = ctx.settings.maxDepth
  active : ∀ {s t}, S s t → t.active = s.active
  activate : ∀ {s t}, S s t → ∀ active, S { s with active } { t with active }
  read : ∀ {s t}, S s t → ∀ name,
    (ctx'.host.read name t.world).1 = (ctx.host.read name s.world).1 ∧
      S { s with world := (ctx.host.read name s.world).2 }
        { t with world := (ctx'.host.read name t.world).2 }
  perform : ∀ {s t}, S s t → ∀ {n m}, P n m → ∀ {c c' : Consequence}, c'.action = c.action →
    c'.kind = c.kind →
    (ctx'.host.perform c.action c.kind t.world).1 = (ctx.host.perform c.action c.kind s.world).1 ∧
      S (s.performed ctx n c) (t.performed ctx' m c')
  assigned : ∀ {s t}, S s t → ∀ {n m}, P n m → ∀ name value,
    S (s.assigned ctx n name value) (t.assigned ctx' m name value)
  decided : ∀ {s t}, S s t → ∀ {n m c d}, P n m → P c d → ∀ value,
    S (s.decided ctx n c value) (t.decided ctx' m d value)
  activated : ∀ {s t}, S s t → ∀ {n m}, P n m → ∀ {head head' : RuleHead},
    head'.name = head.name → S (s.activated ctx n head) (t.activated ctx' m head')
  failed : ∀ {s t}, S s t → ∀ {n m}, P n m → ∀ fault,
    S (s.failed ctx n fault) (t.failed ctx' m fault)
  error : ∀ {s t}, S s t → ∀ {n m}, P n m → ∀ fault,
    S (s.record ctx (·.error (some n.id) fault)) (t.record ctx' (·.error (some m.id) fault))
  remark : ∀ {s t}, S s t → ∀ {n m}, P n m → ∀ text,
    S (s.record ctx (·.message (some n.id) text)) (t.record ctx' (·.message (some m.id) text))
  enter : ∀ {s t}, S s t → ∀ {n m}, P n m → S (s.enter ctx n) (t.enter ctx' m)
  leave : ∀ {s t}, S s t → ∀ {n m}, P n m → ∀ value,
    S (s.leave ctx n value) (t.leave ctx' m value)

namespace Keeps

variable {ctx : EvalContext σ} {ctx' : EvalContext τ} {P : Node → Node → Prop}
  {S : EvalState σ → EvalState τ → Prop}

theorem run_consequence (ctx : EvalContext σ) (n : Node) (c : Consequence) (s : EvalState σ) :
    EStateM.run (consequence ctx n c) s =
      .ok (c.outcome (ctx.host.perform c.action c.kind s.world).1) (s.performed ctx n c) := rfl

theorem abort (h : Keeps ctx ctx' P S) {α : Type} {n m : Node} (hnm : P n m) (e : Error) :
    Related S (abort ctx n e : Eval σ α) (abort ctx' m e) :=
  fun _ _ hst => .error e (h.error hst hnm _)

theorem within (h : Keeps ctx ctx' P S) {α : Type} (rule : String) {x : Eval σ α} {y : Eval τ α}
    (hxy : Related S x y) : Related S (within rule x) (within rule y) := by
  intro s t hst
  have hinner := h.activate hst (rule :: s.active)
  have hresult := hxy _ _ hinner
  -- Behind the rule, it is active no longer on both sides.
  have outer {s' : EvalState σ} {t' : EvalState τ} (h' : S s' t') :
      S { s' with active := s'.active.tail } { t' with active := t'.active.tail } := by
    rw [h.active h']
    exact h.activate h' _
  simp only [EStateM.run, Eval.within, h.active hst] at hresult ⊢
  generalize x _ = r, y _ = r' at hresult
  cases hresult with
  | ok a h' => exact .ok a (outer h')
  | error e h' => exact .error e (outer h')

theorem bracket (h : Keeps ctx ctx' P S) {n m : Node} (hnm : P n m) {x : Eval σ Value}
    {y : Eval τ Value} (hxy : Related S x y) :
    Related S (bracket ctx n x) (bracket ctx' m y) := by
  intro s t hst
  have hresult := hxy _ _ (h.enter hst hnm)
  simp only [EStateM.run, Eval.bracket] at hresult ⊢
  generalize x _ = r, y _ = r' at hresult
  cases hresult with
  | ok v h' => exact .ok v (h.leave h' hnm v)
  | error e h' => exact .error e (h.leave h' hnm _)

/-- Moves that keep a relation between states make up computations that do. -/
theorem congruence (h : Keeps ctx ctx' P S) :
    Congruence ctx ctx' P fun _ x y => Related S x y where
  golf := h.golf
  pure := .pure
  bind := .bind
  read name s t hst := by
    obtain ⟨hvalue, hstate⟩ := h.read hst name
    show Matching S (.ok (ctx.host.read name s.world).1 _) (.ok (ctx'.host.read name t.world).1 _)
    rw [hvalue]
    exact .ok _ hstate
  fail hnm kind message s t hst := .ok _ (h.failed hst hnm _)
  decide hnm hcd value := .modify fun hst => h.decided hst hnm hcd value
  assign hnm name value := .modify fun hst => h.assigned hst hnm name value
  perform := by
    intro n m hnm c c' haction hkind s t hst
    obtain ⟨hresponse, hstate⟩ := h.perform hst hnm haction hkind
    have houtcome (response : Response) : c'.outcome response = c.outcome response := by
      rw [Consequence.outcome, haction, hkind, Consequence.outcome]
    rw [run_consequence, run_consequence, haction, hkind, hresponse, houtcome]
    exact .ok _ hstate
  remark hnm text := .modify fun hst => h.remark hst hnm text
  activate := by
    intro n m hnm head head' hname
    exact .modify fun hst => h.activated hst hnm hname
  unlessRunning := by
    intro n m hnm α rule x y hxy
    -- Related states have the same active rules, so both sides abort or neither does.
    refine Related.get fun hst => ?_
    rw [h.active hst]
    exact .ite (h.abort hnm _) hxy
  within rule _ _ hxy := h.within rule hxy

/-- The evaluations of nodes of the same shape come to the same, in related states. -/
theorem node (h : Keeps ctx ctx' P S) {N : Node → Node → Prop}
    (hN : ∀ {n m}, N n m → P n m ∧ n.kind.Matches N m.kind ∧ List.Forall₂ N n.children m.children)
    (hrules : ∀ name, Option.Rel N (ctx.rules.find? name) (ctx'.rules.find? name))
    (levels : Nat) {n m : Node} (hnm : N n m) :
    Related S (node ctx levels n) (node ctx' levels m) := by
  -- Induction on the levels of the evaluation, since a rule that is called is no part of the node.
  induction levels generalizing n m with
  | zero =>
    rw [Eval.node, Eval.node, h.maxDepth]
    exact h.abort (hN hnm).1 _
  | succ levels ih =>
    obtain ⟨hpair, hkind, hchildren⟩ := hN hnm
    refine h.bracket hpair (h.congruence.step (N := N) hpair ?_ hrules hkind hchildren)
    exact fun hcd => ⟨(hN hcd).1, ih hcd⟩

/-- The evaluations of one node come to the same, in related states. -/
theorem node_self (h : Keeps ctx ctx' Eq S) (hrules : ctx'.rules = ctx.rules) (levels : Nat)
    (n : Node) : Related S (Eval.node ctx levels n) (Eval.node ctx' levels n) := by
  refine h.node (N := Eq) ?_ (fun name => ?_) levels rfl
  · rintro n _ rfl
    have hkind := Kind.matches_map (N := Eq) (f := fun c : Node => c) (fun _ => rfl) n.kind
    rw [Kind.map_id'] at hkind
    exact ⟨rfl, hkind, List.forall₂_same.2 fun _ _ => rfl⟩
  · rw [hrules]
    cases ctx.rules.find? name with
    | none => exact .none
    | some r => exact .some rfl

end Keeps

end Eval

end Rulebook
