import Mathlib.Algebra.Ring.Nat
import Mathlib.Data.List.Induction
import Rulebook.Proofs.Evaluation.Checked
import Rulebook.Proofs.Evaluation.Recorded
import Rulebook.Proofs.Node.Marks

/-!
# Counters, faults and marks say what the trace says

An evaluation keeps its books in several places: counters, a list of faults, flags and counts of
nodes, the trace, and the calls that reach the host. As long as no entry is dropped, all of them
can be read off the trace.

## Main definitions

* `Tally`: what can be counted and listed about an evaluation, and `Tally.ofEntries`: what the
  entries of a trace tell about it
* `Trace.Tells`: the entries of a trace tell what is in the books
* `EvalState.Tallied`: the books of an evaluation are in order
* `Evaluator.Balanced`: what an evaluation comes to agrees with its trace

## Main results

* `Eval.course_tallied`, `Eval.cut_tallied`: evaluations keep the books in agreement
* `Evaluator.run_balanced`: the result of an evaluation is balanced
-/

namespace Rulebook

/-! ## Entries -/

/-- What can be counted and listed about an evaluation. -/
structure Tally where
  nodes : Nat := 0
  maxDepth : Nat := 0
  conditions : Nat := 0
  decisions : Nat := 0
  consequences : Nat := 0
  activations : Nat := 0
  performed : List (String × ConsequenceKind) := []
  faults : List Fault := []

namespace Tally

/-- Notes an event that was recorded at a depth and with a message. -/
def note (t : Tally) (depth : Nat) (message : String) : TraceEvent → Tally
  | .enter => { t with nodes := t.nodes + 1, maxDepth := max t.maxDepth (depth + 1) }
  | .condition _ => { t with conditions := t.conditions + 1 }
  | .decision _ => { t with decisions := t.decisions + 1 }
  | .consequence action kind _ =>
    { t with consequences := t.consequences + 1, performed := t.performed ++ [(action, kind)] }
  | .activation _ _ => { t with activations := t.activations + 1 }
  | .error kind => { t with faults := t.faults ++ [⟨kind, message⟩] }
  | .heading _ | .exit | .change _ | .message => t

/-- What entries tell. -/
def ofEntries (entries : List TraceEntry) : Tally :=
  entries.foldl (fun t e => t.note e.depth e.message e.event) {}

theorem ofEntries_append (entries : List TraceEntry) (e : TraceEntry) :
    ofEntries (entries ++ [e]) = (ofEntries entries).note e.depth e.message e.event := by
  rw [ofEntries, List.foldl_append]
  rfl

end Tally

namespace TraceEntry

/-- The consequence that an entry says was performed. -/
def performed? (e : TraceEntry) : Option (String × ConsequenceKind) :=
  match e.event with
  | .consequence action kind _ => some (action, kind)
  | _ => none

/-- The fault that an entry tells of. -/
def fault? (e : TraceEntry) : Option Fault :=
  match e.event with
  | .error kind => some ⟨kind, e.message⟩
  | _ => none

/-- An entry says that the consequence that a node is was performed, or its variable assigned. -/
def Executes (e : TraceEntry) (id : NodeId) : Prop :=
  e.node = some id ∧ (e.kind = .consequence ∨ e.kind = .change)

end TraceEntry

namespace HostCall

/-- The consequences among some calls, in order. -/
def performed : List HostCall → List (String × ConsequenceKind) :=
  List.filterMap fun
    | .perform action kind => some (action, kind)
    | .read _ | .store _ _ => none

@[simp] theorem performed_append (calls calls' : List HostCall) :
    performed (calls ++ calls') = performed calls ++ performed calls' :=
  List.filterMap_append

@[simp] theorem performed_read (name : String) : performed [.read name] = [] := rfl

@[simp] theorem performed_store (name : String) (value : Value) :
    performed [.store name value] = [] := rfl

@[simp] theorem performed_perform (action : String) (kind : ConsequenceKind) :
    performed [.perform action kind] = [(action, kind)] := rfl

end HostCall

/-- What entries tell, one matter at a time. -/
theorem Tally.ofEntries_eq (entries : List TraceEntry) :
    ofEntries entries =
      { nodes := entries.countP (·.kind = .enter)
        maxDepth := ((entries.filter (·.kind = .enter)).map (·.depth + 1)).foldl max 0
        conditions := entries.countP (·.kind = .condition)
        decisions := entries.countP (·.kind = .decision)
        consequences := entries.countP (·.kind = .consequence)
        activations := entries.countP (·.kind = .activation)
        performed := entries.filterMap TraceEntry.performed?
        faults := entries.filterMap TraceEntry.fault? } := by
  induction entries using List.reverseRecOn with
  | nil => rfl
  | append_singleton entries e ih =>
    rw [ofEntries_append, ih]
    cases he : e.event with
    | _ =>
      simp [note, TraceEntry.kind, TraceEntry.performed?, TraceEntry.fault?, he, TraceEvent.kind]

/-! ## Marks -/

namespace Marks

variable (m : Marks) (id id' : NodeId)

theorem isExecuted_execute :
    (m.execute id).isExecuted id' = true ↔ id = id' ∨ m.isExecuted id' = true := by
  simp [isExecuted, execute, Std.TreeMap.contains_insert]

theorem count_activate :
    (m.activate id).count id' = if id = id' then m.count id + 1 else m.count id' := by
  simp only [count, activate, Std.TreeMap.getElem?_insert, compare_eq_iff_eq, NodeId.number_inj]
  split <;> rfl

/-- One more activation, in a list of nodes that has a node once. -/
theorem sum_count_activate {ns : List Node} (hids : (ns.map Node.id).Nodup) {n : Node}
    (hn : n ∈ ns) :
    (ns.map fun c => (m.activate n.id).count c.id).sum =
      (ns.map fun c => m.count c.id).sum + 1 := by
  induction ns with
  | nil => cases hn
  | cons c ns ih =>
    rw [List.map_cons, List.nodup_cons] at hids
    obtain ⟨hc, hids⟩ := hids
    rw [List.map_cons, List.sum_cons, List.map_cons, List.sum_cons, count_activate]
    rcases List.mem_cons.1 hn with rfl | hn
    · -- The other nodes have other identities.
      have hrest : (ns.map fun c => (m.activate n.id).count c.id) =
          ns.map fun c => m.count c.id := by
        refine List.map_congr_left fun d hd => ?_
        have hne : n.id ≠ d.id := fun h => hc (h ▸ List.mem_map_of_mem hd)
        rw [count_activate, if_neg hne]
      rw [if_pos rfl, hrest]
      omega
    · have hne : n.id ≠ c.id := fun h => hc (h ▸ List.mem_map_of_mem hn)
      rw [if_neg hne, ih hids hn]
      omega

end Marks

/-! ## Traces -/

namespace Trace

/-- As long as no entry was dropped, the entries of a trace tell what is in the books, and which
nodes were executed. -/
structure Tells (t : Trace) (books : Tally) (executed : NodeId → Bool) : Prop where
  books : t.evicted = 0 → books = .ofEntries t.toList
  executed : t.evicted = 0 → ∀ id, executed id = true ↔ ∃ e ∈ t.toList, e.Executes id

variable {t : Trace} {books : Tally} {executed : NodeId → Bool}

/-- An entry that is noted in the books. -/
theorem Tells.record (h : t.Tells books executed) {event : TraceEvent} {node : Option NodeId}
    {message : String} {value : Option Value} {executed' : NodeId → Bool}
    (hexecuted : ∀ id, executed' id = true ↔
      executed id = true ∨ node = some id ∧ (event.kind = .consequence ∨ event.kind = .change)) :
    (t.record event node message value).Tells (books.note t.depth message event) executed' where
  books hev := by
    obtain ⟨h0, e, rfl, -, hd, rfl, -, hlist⟩ := toList_record hev
    rw [hlist, Tally.ofEntries_append, ← h.books h0, hd]
  executed hev id := by
    obtain ⟨h0, e, rfl, rfl, -, -, -, hlist⟩ := toList_record hev
    rw [hexecuted, h.executed h0, hlist]
    simp only [List.mem_append, List.mem_singleton, or_and_right, exists_or, exists_eq_left]
    rfl

/-- An entry that says nothing about consequences. -/
theorem Tells.record_of_ne (h : t.Tells books executed) {event : TraceEvent}
    (node : Option NodeId) (message : String) (value : Option Value)
    (hconsequence : event.kind ≠ .consequence) (hchange : event.kind ≠ .change) :
    (t.record event node message value).Tells (books.note t.depth message event) executed := by
  refine h.record fun id => ⟨.inl, ?_⟩
  rintro (h | ⟨-, h | h⟩)
  · exact h
  · exact absurd h hconsequence
  · exact absurd h hchange

theorem Tells.heading (h : t.Tells books executed) (title : String) :
    (t.heading title).Tells books executed :=
  h.record_of_ne _ _ _ nofun nofun

theorem Tells.enter (h : t.Tells books executed) (n : Node) :
    (t.enter n).Tells
      { books with nodes := books.nodes + 1, maxDepth := max books.maxDepth (t.depth + 1) }
      executed :=
  -- Stack and depth play no part.
  have hrecord := h.record_of_ne (some n.id) ("enter " ++ n.brief) none
    (by nofun : TraceEvent.enter.kind ≠ .consequence) nofun
  ⟨hrecord.books, hrecord.executed⟩

theorem Tells.exit (h : t.Tells books executed) (n : Node) (result : Value) :
    (t.exit n result).Tells books executed :=
  have hbelow : { t with depth := t.depth - 1, stack := unwind n.id t.stack : Trace }.Tells books
      executed := ⟨h.books, h.executed⟩
  hbelow.record_of_ne _ _ _ nofun nofun

theorem Tells.condition (h : t.Tells books executed) (n : Node) (value : Value) :
    (t.condition n value).Tells { books with conditions := books.conditions + 1 } executed :=
  h.record_of_ne _ _ _ nofun nofun

theorem Tells.decision (h : t.Tells books executed) (n : Node) (branch : Branch) :
    (t.decision n branch).Tells { books with decisions := books.decisions + 1 } executed :=
  h.record_of_ne _ _ _ nofun nofun

theorem Tells.activation (h : t.Tells books executed) (n : Node) (rule : String) (count : Nat) :
    (t.activation n rule count).Tells { books with activations := books.activations + 1 }
      executed :=
  h.record_of_ne _ _ _ nofun nofun

theorem Tells.error (h : t.Tells books executed) (node : Option NodeId) (fault : Fault) :
    (t.error node fault).Tells { books with faults := books.faults ++ [fault] } executed :=
  h.record_of_ne _ _ _ nofun nofun

theorem Tells.message (h : t.Tells books executed) (node : Option NodeId) (text : String) :
    (t.message node text).Tells books executed :=
  h.record_of_ne _ _ _ nofun nofun

theorem Tells.consequence {marks : Marks} (h : t.Tells books marks.isExecuted) (n : Node)
    (o : Outcome Value) :
    (t.consequence n o).Tells
      { books with
        consequences := books.consequences + 1
        performed := books.performed ++ [(o.action, o.kind)] }
      (marks.execute n.id).isExecuted :=
  h.record fun id => by simp [Marks.isExecuted_execute, TraceEvent.kind, or_comm]

theorem Tells.change {marks : Marks} (h : t.Tells books marks.isExecuted) (n : Node)
    (name : String) (old : Option Value) (new : Value) :
    (t.change n name old new).Tells books (marks.execute n.id).isExecuted :=
  h.record fun id => by simp [Marks.isExecuted_execute, TraceEvent.kind, or_comm]

end Trace

/-! ## States -/

variable {σ : Type}

theorem EvalState.record_eq {ctx : EvalContext σ} (h : ctx.settings.traces = true)
    (f : Trace → Trace) (s : EvalState σ) : s.record ctx f = { s with trace := f s.trace } :=
  if_pos h

/-- The rules of a tree. -/
def Node.rules (root : Node) : List Node :=
  root.nodes.filter (·.kind.rule?.isSome)

/-- The counts of the rules of a tree that is marked. -/
theorem Node.activations_withMarks (root : Node) (executed : NodeId → Bool)
    (activations : NodeId → Nat) :
    ((root.withMarks executed activations).nodes.filterMap (·.kind.rule?)).map
      RuleHead.activations = root.rules.map fun n => activations n.id := by
  rw [nodes_withMarks, List.filterMap_map, rules]
  simp only [Function.comp_def, rule?_withMarks]
  generalize root.nodes = ns
  induction ns with
  | nil => rfl
  | cons n ns ih => cases h : n.kind.rule? <;> simp [h, ih]

namespace EvalState

/-- The books of an evaluation on a host that notes the calls of its services. -/
def books (s : EvalState (σ × List HostCall)) : Tally where
  nodes := s.stats.nodes
  maxDepth := s.stats.maxDepth
  conditions := s.stats.decisions
  decisions := s.stats.decisions
  consequences := s.stats.consequences
  activations := s.stats.activations
  performed := HostCall.performed s.world.2
  faults := s.faults.toList

/-- The books of an evaluation of a tree are in order: the trace tells the same, and the rules of
the tree were counted. -/
structure Tallied (root : Node) (s : EvalState (σ × List HostCall)) : Prop where
  depth : s.trace.depth = s.depth
  trace : s.trace.Tells s.books s.marks.isExecuted
  rules : s.stats.activations = (root.rules.map fun n => s.marks.count n.id).sum

end EvalState

namespace Eval

section Depth

variable {ctx : EvalContext σ} {scope : Node → Prop} {s t : EvalState σ}

theorem move_depth (h : Move ctx scope s t) : t.depth = s.depth := by
  cases h with
  | read s hn hk => rfl
  | fail s hn hf => simp [EvalState.failed]
  | decide value s hn hk => simp [EvalState.decided]
  | assign value s hn hk hc => simp [EvalState.assigned]
  | perform s hn hk hc => simp [EvalState.performed]
  | activate s hn hk => simp [EvalState.activated]
  | remark text s hn => simp

/-- An evaluation ends at the depth at which it began. -/
theorem course_depth (h : Course ctx scope s t) : t.depth = s.depth := by
  induction h with
  | done s => rfl
  | move first _ ih => exact ih.trans (move_depth first)
  | within rule _ _ inner rest => exact rest.trans inner
  | bracket value _ _ _ inner rest =>
    simpa [EvalState.leave, EvalState.enter, inner] using rest

end Depth

section Tallied

variable {host : Host σ} {ctx : EvalContext (σ × List HostCall)} {root : Node}
  {s t : EvalState (σ × List HostCall)}

theorem failed_tallied (htraces : ctx.settings.traces = true) (n : Node) (fault : Fault)
    (hs : s.Tallied root) : (s.failed ctx n fault).Tallied root := by
  obtain ⟨hdepth, htrace, hrules⟩ := hs
  rw [EvalState.failed, EvalState.record_eq htraces]
  refine ⟨(Trace.depth_record ..).trans hdepth, ?_, hrules⟩
  simpa [EvalState.books] using htrace.error (some n.id) fault

theorem move_tallied (hhost : ctx.host = host.recorded) (htraces : ctx.settings.traces = true)
    (hids : (root.nodes.map Node.id).Nodup) (h : Move ctx (· ∈ root.nodes) s t)
    (hs : s.Tallied root) : t.Tallied root := by
  obtain ⟨hdepth, htrace, hrules⟩ := id hs
  cases h with
  | read s hn hk =>
    refine ⟨hdepth, ?_, hrules⟩
    simpa [EvalState.books, hhost, Host.recorded] using htrace
  | @fail n fault s hn hf => exact failed_tallied htraces n fault hs
  | @decide n c yes no value s hn hk =>
    rw [EvalState.decided, EvalState.record_eq htraces]
    refine ⟨?_, ?_, hrules⟩
    · exact ((Trace.depth_record ..).trans (Trace.depth_record ..)).trans hdepth
    · exact (htrace.condition c value).decision n _
  | @assign n c value s hn hk hc =>
    simp only [EvalState.assigned, hhost, Host.recorded]
    rw [EvalState.record_eq htraces]
    refine ⟨(Trace.depth_record ..).trans hdepth, ?_, hrules⟩
    simpa [EvalState.books] using htrace.change n c.action _ value
  | @perform n c s hn hk hc =>
    simp only [EvalState.performed, hhost, Host.recorded]
    rw [EvalState.record_eq htraces]
    refine ⟨(Trace.depth_record ..).trans hdepth, ?_, hrules⟩
    simpa [EvalState.books] using htrace.consequence n ⟨c.action, c.kind, _, _, _⟩
  | @activate n head body s hn hk =>
    rw [EvalState.activated, EvalState.record_eq htraces]
    refine ⟨(Trace.depth_record ..).trans hdepth, htrace.activation n _ _, ?_⟩
    have hrule : n ∈ root.rules := List.mem_filter.2 ⟨hn, by rw [hk]; rfl⟩
    have hrules' : (root.rules.map Node.id).Nodup :=
      hids.sublist (List.filter_sublist.map _)
    show s.stats.activations + 1 = _
    rw [hrules, Marks.sum_count_activate _ hrules' hrule]
  | remark text s hn =>
    rw [EvalState.record_eq htraces]
    exact ⟨(Trace.depth_record ..).trans hdepth, htrace.message _ _, hrules⟩

theorem enter_tallied (htraces : ctx.settings.traces = true) (n : Node) (hs : s.Tallied root) :
    (s.enter ctx n).Tallied root := by
  obtain ⟨hdepth, htrace, hrules⟩ := hs
  rw [EvalState.enter, EvalState.record_eq htraces]
  refine ⟨?_, ?_, hrules⟩
  · simp [Trace.enter, hdepth]
  · rw [← hdepth]
    exact htrace.enter n

theorem leave_tallied (htraces : ctx.settings.traces = true) (n : Node) (result : Value)
    (hs : s.Tallied root) : (s.leave ctx n result).Tallied root := by
  obtain ⟨hd, htrace, hrules⟩ := hs
  rw [EvalState.leave, EvalState.record_eq htraces]
  refine ⟨?_, htrace.exit n result, hrules⟩
  show (s.trace.exit n result).depth = s.depth - 1
  rw [Trace.exit, Trace.depth_record, hd]

/-- An evaluation that comes to a value leaves the books in order. -/
theorem course_tallied (hhost : ctx.host = host.recorded) (htraces : ctx.settings.traces = true)
    (hids : (root.nodes.map Node.id).Nodup) (h : Course ctx (· ∈ root.nodes) s t)
    (hs : s.Tallied root) : t.Tallied root := by
  induction h with
  | done s => exact hs
  | move first _ ih => exact ih (move_tallied hhost htraces hids first hs)
  | within rule _ _ inner rest =>
    obtain ⟨hdepth, htrace, hrules⟩ := inner ⟨hs.depth, hs.trace, hs.rules⟩
    exact rest ⟨hdepth, htrace, hrules⟩
  | @bracket s t u n value _ _ _ inner rest =>
    exact rest (leave_tallied htraces n value (inner (enter_tallied htraces n hs)))

/-- An evaluation that was cut off does so too, once the error that did it is a fault. -/
theorem cut_tallied (hhost : ctx.host = host.recorded) (htraces : ctx.settings.traces = true)
    (hids : (root.nodes.map Node.id).Nodup) {e : Error} (h : Cut ctx (· ∈ root.nodes) e s t)
    (hs : s.Tallied root) : ({ t with faults := t.faults.push (.ofError e) }).Tallied root := by
  induction h with
  | @abort n s hn he => exact failed_tallied htraces n (.ofError e) hs
  | after first _ ih => exact ih (course_tallied hhost htraces hids first hs)
  | within rule _ inner =>
    obtain ⟨hdepth, htrace, hrules⟩ := inner ⟨hs.depth, hs.trace, hs.rules⟩
    exact ⟨hdepth, htrace, hrules⟩
  | @bracket s t n _ _ inner =>
    have hbooks := inner (enter_tallied htraces n hs)
    have hleave := leave_tallied htraces n (.fault (.ofError e)) hbooks
    -- The end of the evaluation of a node is no matter of faults.
    rw [EvalState.leave, EvalState.record_eq htraces] at hleave ⊢
    exact hleave

end Tallied

end Eval

/-! ## Runs -/

namespace Evaluator

/-- What an evaluator has counted and listed, the flags and counts of the tree that it leaves, and
the calls of services agree with its trace. -/
structure Balanced (e : Evaluator) (tree : Node) (calls : List HostCall) : Prop where
  nodes : e.stats.nodes = e.trace.toList.countP (·.kind = .enter)
  maxDepth : e.stats.maxDepth =
    ((e.trace.toList.filter (·.kind = .enter)).map (·.depth + 1)).foldl max 0
  decisions : e.stats.decisions = e.trace.toList.countP (·.kind = .decision)
  conditions : e.stats.decisions = e.trace.toList.countP (·.kind = .condition)
  consequences : e.stats.consequences = e.trace.toList.countP (·.kind = .consequence)
  performed : HostCall.performed calls = e.trace.toList.filterMap TraceEntry.performed?
  activations : e.stats.activations = e.trace.toList.countP (·.kind = .activation)
  rules : e.stats.activations =
    ((tree.nodes.filterMap (·.kind.rule?)).map RuleHead.activations).sum
  faults : e.faults.toList = e.trace.toList.filterMap TraceEntry.fault?
  executed : ∀ n ∈ tree.nodes, ∀ c, n.kind = .consequence c →
    (c.executed = true ↔ ∃ entry ∈ e.trace.toList, entry.Executes n.id)

theorem start_tallied (e : Evaluator) (root : Node) (world : σ)
    {ctx : EvalContext (σ × List HostCall)} (htraces : ctx.settings.traces = true) :
    (e.start ctx (world, [])).Tallied root := by
  have hempty : e.trace.reset.Tells {} ({} : Marks).isExecuted := by
    refine ⟨fun _ => rfl, fun _ id => ?_⟩
    simp [Marks.isExecuted, Trace.reset, Trace.ofSettings, Trace.toList]
  rw [start, EvalState.record_eq htraces]
  refine ⟨Trace.depth_record .., hempty.heading "evaluation", ?_⟩
  simp [Marks.count]

theorem finish_balanced (e : Evaluator) {root : Node} (value : Value)
    {s : EvalState (σ × List HostCall)} (hs : s.Tallied root) (hev : s.trace.evicted = 0) :
    (e.finish root value s).evaluator.Balanced (e.finish root value s).tree s.world.2 := by
  have hbooks := hs.trace.books hev
  rw [Tally.ofEntries_eq, EvalState.books] at hbooks
  obtain ⟨hnodes, hmax, hcond, hdec, hcons, hact, hperf, hfaults⟩ := Tally.mk.inj hbooks
  refine ⟨hnodes, hmax, hdec, hcond, hcons, hperf, hact, ?_, hfaults, ?_⟩
  · show s.stats.activations = _
    rw [hs.rules]
    exact congrArg List.sum (root.activations_withMarks _ _).symm
  · intro n hn c hk
    -- The node comes from one of the tree, and was flagged if the marks say so.
    obtain ⟨m, -, rfl⟩ := List.mem_map.1 (root.nodes_withMarks _ _ ▸ hn)
    have hc := m.consequence?_withMarks s.marks.isExecuted s.marks.count
    rw [hk, Kind.consequence?, eq_comm, Option.map_eq_some_iff] at hc
    obtain ⟨d, -, rfl⟩ := hc
    rw [Node.id_withMarks]
    exact hs.trace.executed hev m.id

/-- The result of an evaluation on a host that notes the calls of its services. -/
theorem run_recorded_balanced (e : Evaluator) (host : Host σ) (root : Node) (world : σ)
    (hids : (root.nodes.map Node.id).Nodup) (htraces : e.settings.traces = true)
    (hev : (e.run host.recorded root (world, [])).evaluator.trace.evicted = 0) :
    let r := e.run host.recorded root (world, [])
    r.evaluator.Balanced r.tree r.world.2 := by
  let ctx : EvalContext (σ × List HostCall) := ⟨host.recorded, e.settings, root.ruleTable⟩
  have hhost : ctx.host = host.recorded := rfl
  have hstart : (e.start ctx (world, [])).Tallied root := e.start_tallied root world htraces
  have hnode : Eval.Leads ctx (· ∈ root.nodes) (e.start ctx (world, []))
      (e.outcome host.recorded root (world, [])) :=
    Eval.node_runs (Eval.closed_nodes host.recorded e.settings root) _ root.mem_nodes_self _
  intro r
  simp only [r, run_eq] at hev ⊢
  generalize e.outcome host.recorded root (world, []) = outcome at hnode hev
  cases outcome with
  | ok value s =>
    exact e.finish_balanced value (Eval.course_tallied hhost htraces hids hnode hstart) hev
  | error err s =>
    exact e.finish_balanced (.fault (.ofError err))
      (Eval.cut_tallied hhost htraces hids hnode hstart) hev

/-- **Counters, faults, marks and calls agree with the trace.** If a trace is kept, no entry was
dropped and nodes can be told apart, then all that an evaluation counts, lists and marks can be
read off the trace, however the evaluation ended. -/
theorem run_balanced (e : Evaluator) (host : Host σ) (root : Node) (world : σ)
    (hids : (root.nodes.map Node.id).Nodup) (htraces : e.settings.traces = true)
    (hev : (e.run host root world).evaluator.trace.evicted = 0) :
    (e.run host root world).evaluator.Balanced (e.run host root world).tree
      (e.calls host root world) := by
  rw [run_eq_recorded] at hev ⊢
  exact e.run_recorded_balanced host root world hids htraces hev

/-- A decision, an assignment and a consequence in one tree, an activation and an error that ends
the evaluation in another. -/
theorem run_balanced_scoring_selfCall :
    let e := ofSettings {}
    let scored := e.run Environment.host scoring {}
    let looped := e.run Environment.host selfCall {}
    scored.evaluator.stats =
        { nodes := 12, decisions := 1, consequences := 1, activations := 0, maxDepth := 5 } ∧
      scored.evaluator.Balanced scored.tree (e.calls Environment.host scoring {}) ∧
      looped.evaluator.stats =
        { nodes := 3, decisions := 0, consequences := 0, activations := 1, maxDepth := 3 } ∧
      looped.evaluator.faults.size = 1 ∧
      looped.evaluator.Balanced looped.tree (e.calls Environment.host selfCall {}) :=
  ⟨by decide +kernel,
    run_balanced _ _ _ _ (by decide +kernel) (by decide +kernel) (by decide +kernel),
    by decide +kernel, by decide +kernel,
    run_balanced _ _ _ _ (by decide +kernel) (by decide +kernel) (by decide +kernel)⟩

end Evaluator

end Rulebook
