import Rulebook.Proofs.Evaluation.Checked
import Rulebook.Proofs.Evaluation.Folding

/-!
# Where evaluations get to

An evaluation goes from nodes to their children, from rules to their bodies, and from calls to the
rules that are called. At each node on its way some evaluations are under way around it, and some
rules are active. How deep it goes, and at which node it is cut off, can be told from that.

A course of moves does not say where an evaluation stands when it makes them, and both the ceiling
and the guard of rules are about that. So the places are described first, on the tree alone, and an
evaluation is shown to be confined to them. What has to be known about places is then proved by
induction on the way there, with no evaluation in it.

## Main definitions

* `Site`: a node that an evaluation of a tree can be at, with the depth and the active rules there
* `Eval.Halts`: an error that ends evaluations at a site
* `Eval.Confined`: a computation at a place of an evaluation that goes on to sites only

## Main results

* `Eval.node_confined`: the evaluation of a node at a site goes on to sites only
* `Evaluator.maxDepth_run`: the deepest evaluation was at a site
* `Evaluator.halts_of_mem_faults`: a fault about nesting is an error that ends evaluations at a site
-/

namespace Rulebook

/-- A node that an evaluation of a tree can be at: so many evaluations are under way around it, and
these rules are active, the innermost first. -/
inductive Site (root : Node) : Node → Nat → List String → Prop where
  | root : Site root root 0 []
  /-- From a node other than a rule to its children. -/
  | child {n c : Node} {depth : Nat} {active : List String} (h : Site root n depth active)
      (hn : n.kind.rule? = none) (hc : c ∈ n.childNodes) : Site root c (depth + 1) active
  /-- From a rule that is not active yet to its body. -/
  | body {n body : Node} {head : RuleHead} {depth : Nat} {active : List String}
      (h : Site root n depth active) (hk : n.kind = .rule head (some body))
      (hnew : head.name ∉ active) : Site root body (depth + 1) (head.name :: active)
  /-- From a call to the rule that is called. -/
  | call {n rule : Node} {name : String} {depth : Nat} {active : List String}
      (h : Site root n depth active) (hk : n.kind = .ruleCall name)
      (hr : root.ruleTable.find? name = some rule) : Site root rule (depth + 1) active

theorem Site.mem_nodes {root n : Node} {depth : Nat} {active : List String}
    (h : Site root n depth active) : n ∈ root.nodes := by
  induction h with
  | root => exact root.mem_nodes_self
  | child _ _ hc ih => exact Node.mem_nodes_of_mem_childNodes_of_mem ih hc
  | @body n body head depth active _ hk _ ih =>
    refine Node.mem_nodes_of_mem_childNodes_of_mem ih ?_
    simp [Node.childNodes, hk, Kind.operands, Kind.slots]
  | call _ _ hr _ =>
    rw [Node.find?_ruleTable] at hr
    exact List.mem_of_find?_eq_some hr

namespace Eval

variable {σ : Type} {ctx : EvalContext σ} {root : Node}

/-- An error that ends evaluations at a site: there is no level left below the ceiling, or the node
is a rule that is active. -/
inductive Halts (root : Node) (limit : Nat) : Error → Prop where
  | ceiling {n : Node} {active : List String} (h : Site root n limit active) :
      Halts root limit (.tooDeep "evaluator" limit)
  | loop {n : Node} {head : RuleHead} {body : Option Node} {depth : Nat} {active : List String}
      (h : Site root n depth active) (hk : n.kind = .rule head body)
      (hactive : head.name ∈ active) : Halts root limit (.ruleLoop head.name)

/-! ## Computations at a place -/

section Computations

variable {α β : Type} {depth limit : Nat} {active : List String} {n : Node} {s t u : EvalState σ}

/-- A state with the same depth and the same active rules as an earlier one. If an evaluation since
was deeper than all before, it was at a site. -/
structure Resumes (root : Node) (s t : EvalState σ) : Prop where
  depth : t.depth = s.depth
  active : t.active = s.active
  deepest : t.stats.maxDepth = s.stats.maxDepth ∨
    ∃ n depth active, Site root n depth active ∧ t.stats.maxDepth = depth + 1

theorem Resumes.refl (s : EvalState σ) : Resumes root s s :=
  ⟨rfl, rfl, .inl rfl⟩

theorem Resumes.trans (h : Resumes root s t) (h' : Resumes root t u) : Resumes root s u where
  depth := h'.depth.trans h.depth
  active := h'.active.trans h.active
  deepest := by
    rcases h'.deepest with hsame | hsite
    · rw [hsame]
      exact h.deepest
    · exact .inr hsite

/-- The evaluation of a node at a site, around what was done in it. -/
theorem Resumes.bracket (hs : Site root n s.depth s.active) (h : Resumes root (s.enter ctx n) t)
    (result : Value) : Resumes root s (t.leave ctx n result) where
  depth := by simp [EvalState.leave, EvalState.enter, h.depth]
  active := by simpa [EvalState.leave, EvalState.enter] using h.active
  deepest := by
    have hdeepest := h.deepest
    simp only [EvalState.enter, EvalState.record_stats] at hdeepest
    simp only [EvalState.leave, EvalState.record_stats]
    rcases hdeepest with hsame | hsite
    · -- The evaluation of the node itself may be the deepest one so far.
      rw [hsame]
      rcases Nat.le_total (s.depth + 1) s.stats.maxDepth with hle | hle
      · exact .inl (Nat.max_eq_left hle)
      · exact .inr ⟨n, s.depth, s.active, hs, Nat.max_eq_right hle⟩
    · exact .inr hsite

/-- What was done while a rule was active, which is active no longer. -/
theorem Resumes.within {rule : String} (h : Resumes root { s with active := rule :: s.active } t) :
    Resumes root s { t with active := t.active.tail } :=
  ⟨h.depth, congrArg List.tail h.active, h.deepest⟩

/-- What a computation leaves that began in a state: the same place, and if it was cut off, an error
that ends evaluations at a site. -/
def Leaves (root : Node) (limit : Nat) (s : EvalState σ) :
    EStateM.Result Error (EvalState σ) α → Prop
  | .ok _ t => Resumes root s t
  | .error e t => Resumes root s t ∧ Halts root limit e

/-- A computation at a depth, while some rules are active, that goes on to sites only. -/
def Confined (root : Node) (limit depth : Nat) (active : List String) (x : Eval σ α) : Prop :=
  ∀ s, s.depth = depth → s.active = active → Leaves root limit s (EStateM.run x s)

theorem Resumes.leaves {r : EStateM.Result Error (EvalState σ) α} (h : Resumes root s t)
    (hr : Leaves root limit t r) : Leaves root limit s r := by
  cases r with
  | ok a u => exact h.trans hr
  | error e u => exact ⟨h.trans hr.1, hr.2⟩

theorem Confined.pure (a : α) : Confined root limit depth active (pure a : Eval σ α) :=
  fun s _ _ => .refl s

theorem Confined.bind {x : Eval σ α} {f : α → Eval σ β} (hx : Confined root limit depth active x)
    (hf : ∀ a, Confined root limit depth active (f a)) :
    Confined root limit depth active (x >>= f) := by
  intro s hdepth hactive
  have h := hx s hdepth hactive
  rw [EStateM.run_bind]
  cases hs : EStateM.run x s with
  | ok a t =>
    rw [hs] at h
    exact h.leaves (hf a t (h.depth.trans hdepth) (h.active.trans hactive))
  | error e t => rwa [hs] at h

theorem Confined.ite {c : Prop} [Decidable c] {x y : Eval σ α}
    (hx : Confined root limit depth active x) (hy : Confined root limit depth active y) :
    Confined root limit depth active (if c then x else y) := by
  split
  · exact hx
  · exact hy

/-- A change of states that leaves the place of the evaluation alone, and its depth. -/
theorem Confined.modify {f : EvalState σ → EvalState σ} (hdepth : ∀ s, (f s).depth = s.depth)
    (hactive : ∀ s, (f s).active = s.active)
    (hmax : ∀ s, (f s).stats.maxDepth = s.stats.maxDepth) :
    Confined root limit depth active (modify f) :=
  fun s _ _ => ⟨hdepth s, hactive s, .inl (hmax s)⟩

theorem Confined.within {x : Eval σ α} (rule : String)
    (hx : Confined root limit depth (rule :: active) x) :
    Confined root limit depth active (within rule x) := by
  intro s hdepth hactive
  have h := hx { s with active := rule :: s.active } hdepth (congrArg _ hactive)
  simp only [EStateM.run, Eval.within] at h ⊢
  cases hs : x { s with active := rule :: s.active } with
  | ok a t => rw [hs] at h; exact h.within
  | error e t => rw [hs] at h; exact ⟨h.1.within, h.2⟩

theorem Confined.bracket {x : Eval σ Value} (hn : Site root n depth active)
    (hx : Confined root limit (depth + 1) active x) :
    Confined root limit depth active (bracket ctx n x) := by
  rintro s rfl rfl
  have h := hx (s.enter ctx n) (by simp [EvalState.enter]) (by simp [EvalState.enter])
  simp only [EStateM.run, Eval.bracket] at h ⊢
  cases hs : x (s.enter ctx n) with
  | ok v t => rw [hs] at h; exact h.bracket hn v
  | error e t => rw [hs] at h; exact ⟨h.1.bracket hn _, h.2⟩

theorem abort_confined {e : Error} (he : Halts root limit e) :
    Confined root limit depth active (abort ctx n e : Eval σ α) :=
  fun s _ _ => ⟨⟨EvalState.record_depth ctx _ s, EvalState.record_active ctx _ s,
    .inl (by rw [EvalState.record_stats])⟩, he⟩

end Computations

/-! ## Nodes -/

section Nodes

variable {depth limit : Nat} {active : List String}

/-- Moves that leave the active rules alone stay at a place, and so does what is made of them. -/
theorem confined_preCongruence : PreCongruence ctx ctx (fun _ _ => True)
    fun _ x _ => Confined root limit depth active x where
  golf := rfl
  pure := .pure
  bind := .bind
  read name s _ _ := ⟨rfl, rfl, .inl rfl⟩
  fail _ kind message := by
    refine .bind (.modify ?_ ?_ ?_) fun _ => .bind (.modify ?_ ?_ ?_) fun _ => .pure _
    all_goals intro s; simp
  decide _ _ value := by
    refine .modify ?_ ?_ ?_
    all_goals intro s; simp [EvalState.decided]
  assign _ name value := by
    refine .modify ?_ ?_ ?_
    all_goals intro s; simp [EvalState.assigned]
  perform _ c c' haction hkind s _ _ := by
    show Resumes root s (s.performed ctx _ c)
    exact ⟨by simp [EvalState.performed], by simp [EvalState.performed],
      .inl (by simp [EvalState.performed])⟩
  remark _ text := by
    refine .modify ?_ ?_ ?_
    all_goals intro s; simp

variable {run : Node → Eval σ Value} {n : Node}

/-- A rule activates itself for its body, unless it is active already. -/
theorem rule_confined {head : RuleHead} {body : Option Node} (hn : Site root n depth active)
    (hk : n.kind = .rule head body)
    (hrun : ∀ {c active}, Site root c (depth + 1) active →
      Confined root limit (depth + 1) active (run c)) :
    Confined root limit (depth + 1) active (rule ctx run n head body) := by
  rw [rule_eq]
  refine .ite (.bind (confined_preCongruence.remark (m := n) trivial _) fun _ => .pure _) ?_
  intro s hdepth hactive
  have hrest (hnew : head.name ∉ active) : Confined root limit (depth + 1) active
      (modify (EvalState.activated ctx n · head) >>= fun _ =>
        within head.name (body.elim (return .void) run)) := by
    refine .bind (.modify ?_ ?_ ?_) fun _ => .within _ ?_
    · exact fun s => by simp [EvalState.activated]
    · exact fun s => by simp [EvalState.activated]
    · exact fun s => by simp [EvalState.activated]
    · cases body with
      | none => exact .pure _
      | some body => exact hrun (hn.body hk hnew)
  -- The guard looks at the active rules of the state, which are those of the site.
  show Leaves root limit s (EStateM.run
    (if s.active.contains head.name then abort ctx n (.ruleLoop head.name) else _) s)
  split
  · next hloop =>
    have hmem : head.name ∈ active := by rw [← hactive]; simpa using hloop
    exact abort_confined (.loop hn hk hmem) s hdepth hactive
  · next hloop =>
    have hnew : head.name ∉ active := by rw [← hactive]; simpa using hloop
    exact hrest hnew s hdepth hactive

theorem step_confined (hrules : ctx.rules = root.ruleTable) (hn : Site root n depth active)
    (hrun : ∀ {c active}, Site root c (depth + 1) active →
      Confined root limit (depth + 1) active (run c)) :
    Confined root limit (depth + 1) active (step ctx run n) := by
  cases hrule : n.kind.rule? with
  | some head =>
    obtain ⟨body, hk⟩ : ∃ body, n.kind = .rule head body := by
      cases hk : n.kind <;> simp_all [Kind.rule?]
    rw [step, hk]
    exact rule_confined hn hk hrun
  | none =>
    -- The children of any other node are sites, and so are the rules that it calls.
    let N (c d : Node) : Prop := c = d ∧ Site root c (depth + 1) active
    have hsite (c : Node) (hc : c ∈ n.childNodes) : N c c := ⟨rfl, hn.child hrule hc⟩
    refine @PreCongruence.step _ _ ctx ctx _ _ confined_preCongruence N run run n n trivial
      (fun h => ⟨trivial, hrun h.2⟩) (fun name hk => ?_) ?_ ?_ ?_
    · rw [hrules]
      cases hr : root.ruleTable.find? name with
      | none => exact .none
      | some rule => exact .some ⟨rfl, hn.call hk hr⟩
    · have hmatches := Kind.matches_map_of_mem (N := N) (f := fun c => c) fun c hc =>
        hsite c (List.mem_append_left _ hc)
      rwa [Kind.map_id'] at hmatches
    · exact List.forall₂_same.2 fun c hc => hsite c (List.mem_append_right _ hc)
    · intro head head' body body' hk
      simp [hk, Kind.rule?] at hrule

/-- The evaluation of a node at a site goes on to sites only, as long as there are levels below the
ceiling, and ends there at the latest. -/
theorem node_confined (hrules : ctx.rules = root.ruleTable) (levels : Nat) {n : Node}
    {depth : Nat} {active : List String} (hn : Site root n depth active)
    (hlevels : depth + levels = ctx.settings.maxDepth) :
    Confined root ctx.settings.maxDepth depth active (node ctx levels n) := by
  -- Induction on the levels of the evaluation, since a rule that is called is no part of the node.
  induction levels generalizing n depth active with
  | zero =>
    obtain rfl : depth = ctx.settings.maxDepth := hlevels
    exact abort_confined (.ceiling hn)
  | succ levels ih =>
    refine .bracket hn (step_confined hrules hn fun hc => ih hc ?_)
    omega

end Nodes

end Eval

/-! ## Runs -/

namespace Evaluator

variable {σ : Type} (e : Evaluator) (host : Host σ) (root : Node) (world : σ)

theorem outcome_leaves :
    Eval.Leaves root e.settings.maxDepth
      (e.start ⟨host, e.settings, root.ruleTable⟩ world) (e.outcome host root world) := by
  refine Eval.node_confined rfl _ .root (Nat.zero_add _) _ ?_ ?_
  · simp [start]
  · simp [start]

/-- The deepest evaluation was at a site. -/
theorem maxDepth_run : (e.run host root world).evaluator.stats.maxDepth = 0 ∨
    ∃ n depth active, Site root n depth active ∧
      (e.run host root world).evaluator.stats.maxDepth = depth + 1 := by
  have hleaves := e.outcome_leaves host root world
  have hstart : (e.start ⟨host, e.settings, root.ruleTable⟩ world).stats.maxDepth = 0 := by
    simp [start]
  rw [← hstart, run_eq]
  generalize e.outcome host root world = r at hleaves
  cases r with
  | ok value s => exact hleaves.deepest
  | error err s => exact hleaves.1.deepest

/-- A fault about nesting is an error that ends evaluations at a site. -/
theorem halts_of_mem_faults {f : Fault} (hf : f ∈ (e.run host root world).evaluator.faults)
    (hkind : f.kind = .recursion) :
    ∃ err, Eval.Halts root e.settings.maxDepth err ∧ f = .ofError err := by
  rcases e.run_faults_cases host root world f hf with ⟨err, s, hs, -, rfl⟩ | ⟨n, -, hcause⟩
  · have hleaves := e.outcome_leaves host root world
    have houtcome : e.outcome host root world = .error err s := hs
    rw [houtcome] at hleaves
    exact ⟨err, hleaves.2, rfl⟩
  · cases hcause with
    | operands h => simp_all
    | _ => cases hkind

end Evaluator

end Rulebook
