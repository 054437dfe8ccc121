import Mathlib.Data.List.Basic
import Rulebook.Proofs.Evaluation.Machine
import Rulebook.Proofs.Evaluation.Recorded
import Rulebook.Proofs.Trace.Sliding

/-!
# Terminal errors unwind cleanly

Nesting too deeply, and running a rule within itself, end the whole evaluation. From the moment in
which such an error is recorded, the host is left alone, and all that is still recorded are the
ends of the evaluations under way, the innermost first, each with the error as its value.

## Main definitions

* `TraceEntry.IsTerminal`, `TraceEntry.Unwinds`: the entries of terminal errors, and those behind
* `Trace.Extends`: entries of some sort were added, and none dropped
* `Eval.Machine.Raised`: a machine some time after it raised an error
* `Evaluator.Unwinding`: what is behind a terminal error in the trace of an evaluation

## Main results

* `Eval.Machine.next_of_calm`, `Eval.Machine.Raised.next`: what a step does before and behind an
  error
* `Evaluator.machine_calm_or_raised`: the moments of an evaluation
* `Evaluator.run_unwinds`: behind a terminal error there are only the ends of what was begun
-/

namespace Rulebook

/-! ## Entries -/

/-- The entry of an error that ends the evaluation. -/
def TraceEntry.IsTerminal (e : TraceEntry) : Prop :=
  e.event = .error .recursion

/-- The end of an evaluation that came to a fault. In golf mode the value is not kept. -/
structure TraceEntry.Unwinds (golf : Bool) (fault : Fault) (e : TraceEntry) : Prop where
  event : e.event = .exit
  value : golf = false → e.value = some (.fault fault)

theorem TraceEntry.Unwinds.not_isTerminal {golf : Bool} {fault : Fault} {e : TraceEntry}
    (h : e.Unwinds golf fault) : ¬ e.IsTerminal := by
  rw [IsTerminal, h.event]
  nofun

namespace Trace

/-- Entries of some sort were added to a trace. If none was dropped, they are behind the others. -/
structure Extends (P : TraceEntry → Prop) (t u : Trace) : Prop where
  settings : u.settings = t.settings
  entries : u.evicted = 0 →
    t.evicted = 0 ∧ ∃ new, u.toList = t.toList ++ new ∧ ∀ e ∈ new, P e

variable {P : TraceEntry → Prop} {t u v : Trace}

theorem Extends.refl (t : Trace) : t.Extends P t :=
  ⟨rfl, fun h => ⟨h, [], by simp⟩⟩

theorem Extends.trans (h : t.Extends P u) (h' : u.Extends P v) : t.Extends P v where
  settings := h'.settings.trans h.settings
  entries hv := by
    obtain ⟨hu, new', hlist', hnew'⟩ := h'.entries hv
    obtain ⟨ht, new, hlist, hnew⟩ := h.entries hu
    refine ⟨ht, new ++ new', ?_, ?_⟩
    · rw [hlist', hlist, List.append_assoc]
    · simpa only [List.forall_mem_append] using And.intro hnew hnew'

/-- An extension of an empty trace holds only entries of that sort. -/
theorem Extends.forall_mem (h : (reset v).Extends P t) (hev : t.evicted = 0) :
    ∀ e ∈ t.toList, P e := by
  obtain ⟨-, new, hlist, hnew⟩ := h.entries hev
  have hempty : (reset v).toList = [] := Window.toList_empty
  rwa [hlist, hempty, List.nil_append]

theorem record_extends (t : Trace) {event : TraceEvent} {node : Option NodeId} {message : String}
    {value : Option Value}
    (hP : ∀ e : TraceEntry, e.event = event →
      e.value = (if t.settings.golf then none else value) → P e) :
    t.Extends P (t.record event node message value) where
  settings := settings_push t _
  entries hev := by
    obtain ⟨h0, e, hevent, -, -, -, hvalue, hlist⟩ := toList_record hev
    exact ⟨h0, [e], hlist, by simpa using hP e hevent hvalue⟩

/-- An entry that is no terminal error. -/
theorem record_calm (t : Trace) {event : TraceEvent} {node : Option NodeId} {message : String}
    {value : Option Value} (h : event ≠ .error .recursion) :
    t.Extends (¬ TraceEntry.IsTerminal ·) (t.record event node message value) :=
  t.record_extends fun e he _ => by rwa [TraceEntry.IsTerminal, he]

-- Stack and depth of a trace play no part for its entries.

theorem enter_calm (t : Trace) (n : Node) :
    t.Extends (¬ TraceEntry.IsTerminal ·) (t.enter n) := by
  have h : t.Extends (¬ TraceEntry.IsTerminal ·)
      (t.record .enter (some n.id) ("enter " ++ n.brief) none) := t.record_calm nofun
  exact ⟨h.settings, h.entries⟩

theorem exit_extends (t : Trace) (n : Node) {result : Value}
    (hP : ∀ e : TraceEntry, e.event = .exit →
      e.value = (if t.settings.golf then none else some result) → P e) :
    t.Extends P (t.exit n result) := by
  let outer : Trace := { t with depth := t.depth - 1, stack := unwind n.id t.stack }
  have h : outer.Extends P (t.exit n result) := outer.record_extends hP
  exact ⟨h.settings, h.entries⟩

theorem exit_calm (t : Trace) (n : Node) (result : Value) :
    t.Extends (¬ TraceEntry.IsTerminal ·) (t.exit n result) :=
  t.exit_extends n fun e he _ => by
    rw [TraceEntry.IsTerminal, he]
    nofun

theorem exit_unwinds (t : Trace) (n : Node) (fault : Fault) :
    t.Extends (TraceEntry.Unwinds t.settings.golf fault) (t.exit n (.fault fault)) :=
  t.exit_extends n fun e he hvalue => ⟨he, fun hgolf => by rw [hvalue, hgolf]; rfl⟩

/-- Ends of evaluations that leave nothing open close the open nodes, the innermost first. -/
theorem map_node_of_exits {entries : List TraceEntry} {opened : List NodeId}
    (hexits : ∀ e ∈ entries, e.kind = .exit) (h : entries.foldlM bracket? opened = some []) :
    entries.map TraceEntry.node = opened.map some := by
  induction entries generalizing opened with
  | nil =>
    obtain rfl : opened = [] := Option.some.inj h
    rfl
  | cons e entries ih =>
    obtain ⟨he, hrest⟩ := List.forall_mem_cons.1 hexits
    rw [List.foldlM_cons, Option.bind_eq_bind, Option.bind_eq_some_iff] at h
    obtain ⟨outer, houter, h⟩ := h
    cases opened with
    | nil => simp [bracket?, he] at houter
    | cons innermost opened =>
      simp only [bracket?, he] at houter
      split at houter
      · next hnode =>
        obtain rfl := Option.some.inj houter
        rw [List.map_cons, List.map_cons, hnode, ih hrest h]
      · cases houter

end Trace

namespace Eval

variable {σ : Type} {ctx : EvalContext σ}

theorem record_extends {P : TraceEntry → Prop} {trace : Trace} {f : Trace → Trace}
    {s : EvalState σ} (hs : s.trace = trace) (hf : trace.Extends P (f trace)) :
    trace.Extends P (s.record ctx f).trace := by
  rw [EvalState.record_trace, hs]
  split
  · exact hf
  · exact .refl trace

/-- No action records a terminal error. -/
theorem Act.calm (a : Act) (s : EvalState σ) :
    s.trace.Extends (¬ TraceEntry.IsTerminal ·) (a.apply ctx s).2.trace := by
  cases a with
  | read name => exact .refl _
  | fail n fault h => exact record_extends rfl (s.trace.record_calm (by simpa using h))
  | decide n c value =>
    have hcondition : s.trace.Extends (¬ TraceEntry.IsTerminal ·) (s.trace.condition c value) :=
      s.trace.record_calm nofun
    exact record_extends rfl (hcondition.trans (Trace.record_calm _ nofun))
  | assign n name value => exact record_extends rfl (s.trace.record_calm nofun)
  | perform n c => exact record_extends rfl (s.trace.record_calm nofun)
  | activate n head => exact record_extends rfl (s.trace.record_calm nofun)
  | remark n text => exact record_extends rfl (s.trace.record_calm nofun)

/-! ## Steps of the machine -/

namespace Machine

/-- No error has ended the evaluation. -/
def IsCalm (m : Machine σ) : Prop :=
  ∀ e, m.focus ≠ .error e

theorem isCalm_eval (n : Node) (pending : List Pending) (s : EvalState σ) :
    IsCalm ⟨.eval n, pending, s⟩ := by
  rintro e ⟨⟩

theorem isCalm_plan (p : Plan) (pending : List Pending) (s : EvalState σ) :
    IsCalm ⟨.plan p, pending, s⟩ := by
  rintro e ⟨⟩

/-- The errors that end evaluations. -/
inductive Ends (ctx : EvalContext σ) : Error → Prop where
  | ceiling : Ends ctx (.tooDeep "evaluator" ctx.settings.maxDepth)
  | loop (rule : String) : Ends ctx (.ruleLoop rule)

theorem Ends.kind {e : Error} (h : Ends ctx e) : e.kind = .recursion := by
  cases h <;> rfl

/-- Before an error, a step records no terminal error, or is the one that raises it. -/
theorem next_of_calm {m : Machine σ} (h : m.IsCalm) :
    (next ctx m).IsCalm ∧
        m.state.trace.Extends (¬ TraceEntry.IsTerminal ·) (next ctx m).state.trace ∨
      ∃ n e, Ends ctx e ∧ next ctx m = abort ctx n e m.pending m.state := by
  obtain ⟨focus, pending, s⟩ := m
  cases focus with
  | error e => exact absurd rfl (h e)
  | eval n =>
    rw [next]
    split
    · exact .inr ⟨n, _, .ceiling, rfl⟩
    · exact .inl ⟨isCalm_plan _ _ _, record_extends rfl (s.trace.enter_calm n)⟩
  | plan p =>
    cases p with
    | act a rest => exact .inl ⟨isCalm_plan _ _ _, a.calm s⟩
    | eval m rest => exact .inl ⟨isCalm_eval _ _ _, .refl _⟩
    | under rule m => exact .inl ⟨isCalm_eval _ _ _, .refl _⟩
    | unlessRunning rule n rest =>
      rw [next]
      split
      · exact .inr ⟨n, _, .loop rule, rfl⟩
      · exact .inl ⟨isCalm_plan _ _ _, .refl _⟩
    | done v =>
      refine .inl ?_
      cases pending with
      | nil => exact ⟨isCalm_plan _ _ _, .refl _⟩
      | cons waiting pending =>
        cases waiting with
        | bracket n => exact ⟨isCalm_plan _ _ _, record_extends rfl (s.trace.exit_calm n v)⟩
        | within => exact ⟨isCalm_plan _ _ _, .refl _⟩
        | resume rest => exact ⟨isCalm_plan _ _ _, .refl _⟩

/-- The machine some time after an error was raised at a node, in a state. -/
structure Raised (ctx : EvalContext σ) (n : Node) (e : Error) (s : EvalState σ) (m : Machine σ) :
    Prop where
  focus : m.focus = .error e
  world : m.state.world = s.world
  trace : (s.record ctx (·.error (some n.id) (.ofError e))).trace.Extends
    (TraceEntry.Unwinds s.trace.settings.golf (.ofError e)) m.state.trace

theorem raised_abort (n : Node) (e : Error) (pending : List Pending) (s : EvalState σ) :
    Raised ctx n e s (abort ctx n e pending s) :=
  ⟨rfl, EvalState.record_world _ _ _, .refl _⟩

/-- Behind an error, a step at most ends an evaluation that was begun. -/
theorem Raised.next {n : Node} {e : Error} {s : EvalState σ} {m : Machine σ}
    (h : Raised ctx n e s m) : Raised ctx n e s (Machine.next ctx m) := by
  obtain ⟨focus, pending, t⟩ := m
  obtain ⟨rfl, hworld, htrace⟩ := h
  cases pending with
  | nil => exact ⟨rfl, hworld, htrace⟩
  | cons waiting pending =>
    cases waiting with
    | within => exact ⟨rfl, hworld, htrace⟩
    | resume rest => exact ⟨rfl, hworld, htrace⟩
    | bracket n =>
      refine ⟨rfl, (EvalState.record_world _ _ _).trans hworld, htrace.trans ?_⟩
      have hsettings : t.trace.settings = s.trace.settings := by
        rw [htrace.settings, EvalState.record_trace]
        split
        · exact Trace.settings_push _ _
        · rfl
      refine record_extends rfl ?_
      rw [← hsettings]
      exact t.trace.exit_unwinds n _

end Machine

end Eval

/-! ## Moments of an evaluation -/

namespace Evaluator

open Eval (Machine)

variable {σ : Type}

section Moments

variable (e : Evaluator) (host : Host σ) (root : Node) (world : σ)

theorem machine_succ (k : Nat) : e.machine host root world (k + 1) =
    Machine.next ⟨host, e.settings, root.ruleTable⟩ (e.machine host root world k) :=
  Function.iterate_succ_apply' _ _ _

/-- A step raises an error at a node, and no terminal error was recorded before. -/
structure RaisesAt (k : Nat) (n : Node) (err : Error) : Prop where
  ends : Machine.Ends (⟨host, e.settings, root.ruleTable⟩ : EvalContext σ) err
  before : e.trace.reset.Extends (¬ TraceEntry.IsTerminal ·)
    (e.machine host root world k).state.trace
  next : e.machine host root world (k + 1) =
    Machine.abort ⟨host, e.settings, root.ruleTable⟩ n err (e.machine host root world k).pending
      (e.machine host root world k).state

variable {e host root world}

/-- Behind the step that raises an error the machine only unwinds. -/
theorem RaisesAt.raised {k : Nat} {n : Node} {err : Error}
    (h : e.RaisesAt host root world k n err) {later : Nat} (hlater : k < later) :
    Machine.Raised ⟨host, e.settings, root.ruleTable⟩ n err (e.machine host root world k).state
      (e.machine host root world later) := by
  induction later, hlater using Nat.le_induction with
  | base =>
    rw [h.next]
    exact Machine.raised_abort n err _ _
  | succ later _ ih =>
    rw [machine_succ]
    exact ih.next

variable (e host root world)

/-- At each moment no terminal error was recorded yet, or one was raised before. -/
theorem machine_calm_or_raised (steps : Nat) :
    (e.machine host root world steps).IsCalm ∧ e.trace.reset.Extends (¬ TraceEntry.IsTerminal ·)
        (e.machine host root world steps).state.trace ∨
      ∃ k < steps, ∃ n err, e.RaisesAt host root world k n err := by
  induction steps with
  | zero =>
    -- At the beginning only a heading was recorded.
    refine .inl ⟨Machine.isCalm_eval _ _ _, ?_⟩
    exact Eval.record_extends rfl (Trace.record_calm _ nofun)
  | succ steps ih =>
    rcases ih with ⟨hcalm, htrace⟩ | ⟨k, hk, hraises⟩
    · -- The step may be the one that raises an error; otherwise nothing terminal is recorded.
      rw [machine_succ]
      rcases @Machine.next_of_calm σ ⟨host, e.settings, root.ruleTable⟩ _ hcalm with
        ⟨hcalm', htrace'⟩ | ⟨n, err, hends, hnext⟩
      · exact .inl ⟨hcalm', htrace.trans htrace'⟩
      · exact .inr ⟨steps, steps.lt_succ_self, n, err, hends, htrace, by rw [machine_succ, hnext]⟩
    · exact .inr ⟨k, by omega, hraises⟩

/-- The machine at its end has the trace and the host's state of the run. An error that ended it
is the value and the last fault of the run. -/
theorem exists_machine_run : ∃ steps, ∀ later ≥ steps,
    (e.machine host root world later).state.trace = (e.run host root world).evaluator.trace ∧
      (e.machine host root world later).state.world = (e.run host root world).world ∧
      ∀ err, (e.machine host root world later).focus = .error err →
        (e.run host root world).value = .fault (.ofError err) ∧
          (e.run host root world).evaluator.faults.toList.getLast? = some (.ofError err) := by
  obtain ⟨steps, hsteps⟩ := e.exists_machine_eq host root world
  refine ⟨steps, fun later hlater => ?_⟩
  rw [hsteps later hlater, run_eq]
  cases e.outcome host root world with
  | ok value s => exact ⟨rfl, rfl, nofun⟩
  | error err s =>
    refine ⟨rfl, rfl, ?_⟩
    rintro _ ⟨⟩
    exact ⟨rfl, by simp [finish]⟩

/-- An evaluation with a terminal error in its trace raised that error in a step, and then only
unwound. -/
theorem exists_raisesAt (htraces : e.settings.traces = true)
    (hev : (e.run host root world).evaluator.trace.evicted = 0)
    {front back : List TraceEntry} {entry : TraceEntry}
    (hsplit : (e.run host root world).evaluator.trace.toList = front ++ entry :: back)
    (hentry : entry.IsTerminal) :
    ∃ k n err, e.RaisesAt host root world k n err ∧
      (e.machine host root world k).state.trace.toList = front ∧
      (e.machine host root world (k + 1)).state.trace.toList = front ++ [entry] ∧
      (∀ later ≥ k, (e.machine host root world later).state.world =
        (e.run host root world).world) ∧
      ⟨.recursion, entry.message⟩ = Fault.ofError err ∧
      (∀ later ∈ back, later.Unwinds e.trace.settings.golf (.ofError err)) ∧
      (e.run host root world).value = .fault (.ofError err) ∧
      (e.run host root world).evaluator.faults.toList.getLast? = some (.ofError err) := by
  obtain ⟨steps, hsteps⟩ := e.exists_machine_run host root world
  obtain ⟨htrace, hworld, hfocus⟩ := hsteps steps le_rfl
  rw [← htrace] at hev hsplit
  rcases e.machine_calm_or_raised host root world steps with ⟨-, hcalm⟩ | ⟨k, hk, n, err, h⟩
  · -- Without an error there is no such entry.
    exact absurd hentry (hcalm.forall_mem hev entry (by simp [hsplit]))
  let ctx : EvalContext σ := ⟨host, e.settings, root.ruleTable⟩
  set s := (e.machine host root world k).state with hs
  have hraised := h.raised hk
  obtain ⟨hev', exits, hexits, hunwinds⟩ := hraised.trace.entries hev
  have hrecord : (s.record ctx (·.error (some n.id) (.ofError err))).trace =
      s.trace.error (some n.id) (.ofError err) := by rw [EvalState.record_trace, if_pos htraces]
  rw [hrecord] at hev' hexits
  obtain ⟨hev₀, x, hevent, -, -, hmessage, -, hlist⟩ := Trace.toList_record hev'
  have hlist : (s.trace.error (some n.id) (.ofError err)).toList = s.trace.toList ++ [x] := hlist
  -- The terminal entry is the only one of its kind, so the trace is split at it.
  rw [hsplit, hlist, List.append_assoc, List.singleton_append] at hexits
  obtain ⟨hfront, rfl, rfl⟩ := (List.append_cons_inj_of_notMem
    (fun hmem => absurd hentry (h.before.forall_mem hev₀ _ hmem))
    (fun hmem => (hunwinds _ hmem).not_isTerminal hentry)).1 hexits.symm
  have hsilent (later : Nat) (hlater : k ≤ later) :
      (e.machine host root world later).state.world = (e.run host root world).world := by
    rw [← hworld, hraised.world]
    rcases Nat.eq_or_lt_of_le hlater with rfl | hlater
    · rfl
    · exact (h.raised hlater).world
  refine ⟨k, n, err, h, hfront, ?_, hsilent, ?_, ?_, hfocus err hraised.focus⟩
  · rw [h.next, Machine.abort, hrecord, hlist, hfront]
  · rw [hmessage, Fault.ofError, h.ends.kind]
  · rw [h.before.settings] at hunwinds
    exact hunwinds

end Moments

/-! ## Behind a terminal error -/

/-- What the entry of a terminal error, at its place in the trace of an evaluation, says about the
rest of the evaluation and about what it comes to. -/
structure Unwinding (e : Evaluator) (host : Host σ) (root : Node) (world : σ)
    (front : List TraceEntry) (entry : TraceEntry) (back : List TraceEntry) : Prop where
  /-- The error is that of the ceiling or of a rule that was running. -/
  cause : ⟨.recursion, entry.message⟩ = Fault.ofError (.tooDeep "evaluator" e.settings.maxDepth) ∨
    ∃ rule, ⟨.recursion, entry.message⟩ = Fault.ofError (.ruleLoop rule)
  /-- In the step that records the error, all calls of the host's services have been made. -/
  silent : ∃ k,
    (e.machine host.recorded root (world, []) k).state.trace.toList = front ∧
      (e.machine host.recorded root (world, []) (k + 1)).state.trace.toList = front ++ [entry] ∧
      ∀ later ≥ k, (e.machine host.recorded root (world, []) later).state.world.2 =
        e.calls host root world
  /-- All entries behind it are ends of evaluations, with the error as value. -/
  exits : ∀ later ∈ back, later.Unwinds e.trace.settings.golf ⟨.recursion, entry.message⟩
  /-- They close the nodes that are open, the innermost first. -/
  closes : ∃ opened, Trace.openNodes? (front ++ [entry]) = some opened ∧
    back.map TraceEntry.node = opened.map some
  value : (e.run host root world).value = .fault ⟨.recursion, entry.message⟩
  last : (e.run host root world).evaluator.faults.toList.getLast? =
    some ⟨.recursion, entry.message⟩

/-- **Terminal errors unwind cleanly.** If a trace is kept and no entry was dropped, then behind
the entry of a terminal error no service of the host is called, all later entries are the ends of
the evaluations that are under way, the innermost first and each with the error as its value, and
the evaluation has the error as its value and its last fault. -/
theorem run_unwinds (e : Evaluator) (host : Host σ) (root : Node) (world : σ)
    (htraces : e.settings.traces = true)
    (hev : (e.run host root world).evaluator.trace.evicted = 0)
    {front back : List TraceEntry} {entry : TraceEntry}
    (hsplit : (e.run host root world).evaluator.trace.toList = front ++ entry :: back)
    (hentry : entry.event = .error .recursion) :
    e.Unwinding host root world front entry back := by
  -- What is said of the host is said of one that notes the calls of its services.
  have hvalue := congrArg Result.value (e.run_eq_recorded host root world)
  have hevaluator := congrArg Result.evaluator (e.run_eq_recorded host root world)
  obtain ⟨k, n, err, hraises, hfront, hnext, hsilent, hfault, hexits, hlast⟩ :=
    e.exists_raisesAt host.recorded root (world, []) htraces (by rwa [hevaluator] at hev)
      (by rwa [hevaluator] at hsplit) hentry
  rw [← hfault] at hexits hlast
  -- Nothing is left open at the end, so the exits close what was open at the error.
  have hnested := (e.run_trace_nested host root world hev).1.matching
  rw [hsplit, List.append_cons, Trace.openNodes?, List.foldlM_append, Option.bind_eq_bind,
    Option.bind_eq_some_iff] at hnested
  obtain ⟨opened, hopened, hback⟩ := hnested
  refine ⟨?_, ⟨k, hfront, hnext, ?_⟩, hexits, ⟨opened, hopened, ?_⟩, hvalue.trans hlast.1, ?_⟩
  · rw [hfault]
    cases hraises.ends with
    | ceiling => exact .inl rfl
    | loop rule => exact .inr ⟨rule, rfl⟩
  · exact fun later hlater => congrArg Prod.snd (hsilent later hlater)
  · refine Trace.map_node_of_exits (fun later hlater => ?_) hback
    rw [TraceEntry.kind, (hexits later hlater).event]
    rfl
  · rw [hevaluator]
    exact hlast.2

/-- A rule that calls itself: two evaluations of the rule and one of the call are under way when
the error is raised. -/
theorem run_unwinds_selfCall : ∃ front entry back,
    ((ofSettings {}).run Environment.host selfCall {}).evaluator.trace.toList =
        front ++ entry :: back ∧
      entry.event = .error .recursion ∧
      back.map TraceEntry.node = [some ⟨1⟩, some ⟨2⟩, some ⟨1⟩] ∧
      (ofSettings {}).Unwinding Environment.host selfCall {} front entry back := by
  let entries := ((ofSettings {}).run Environment.host selfCall {}).evaluator.trace.toList
  have hnodes : (entries.drop 5).map (fun e => (e.event, e.node)) =
      [(.error .recursion, some ⟨1⟩), (.exit, some ⟨1⟩), (.exit, some ⟨2⟩), (.exit, some ⟨1⟩)] := by
    decide +kernel
  obtain ⟨entry, back, hdrop, hentry, hback⟩ := List.map_eq_cons_iff.1 hnodes
  have hsplit : entries = entries.take 5 ++ entry :: back := by
    rw [← hdrop, List.take_append_drop]
  refine ⟨entries.take 5, entry, back, hsplit, congrArg Prod.fst hentry, ?_, ?_⟩
  · have h := congrArg (List.map Prod.snd) hback
    rwa [List.map_map] at h
  · exact run_unwinds _ _ _ _ rfl (by decide +kernel) hsplit (congrArg Prod.fst hentry)

end Evaluator

end Rulebook
