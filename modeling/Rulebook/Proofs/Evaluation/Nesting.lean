import Rulebook.Proofs.Evaluation.Course

/-!
# Traces are nested like the evaluations they record

Entries that begin and end the evaluation of nodes are brackets. The trace of an evaluation is a
word in which these match, however the evaluation ended.

## Main definitions

* `Trace.openNodes?`: the nodes whose brackets are open behind some entries
* `Trace.Nested`: brackets match as far as they are closed, and depths count the open ones
* `Trace.Mirrors`: the stack of a trace holds what its entries leave open
* `Trace.Returns`: what was begun was ended, and the stack was kept in step

## Main results

* `Eval.course_returns`, `Eval.cut_returns`: evaluations end what they begin
* `Evaluator.run_trace_nested`: the trace of an evaluation is nested, and nothing is left open
-/

namespace Rulebook

namespace Trace

/-! ## Brackets -/

section Brackets

/-- The nodes that are open behind an entry, the innermost first, given those that were open
before it. The end of an evaluation closes the innermost node, which must be the one it is
about. -/
def bracket? (opened : List NodeId) (e : TraceEntry) : Option (List NodeId) :=
  match e.kind, opened with
  | .enter, opened => e.node.map (· :: opened)
  | .exit, [] => none
  | .exit, innermost :: outer => if e.node = some innermost then some outer else none
  | _, opened => some opened

/-- The nodes that are open behind some entries, the innermost first, if their brackets match. -/
def openNodes? (entries : List TraceEntry) : Option (List NodeId) :=
  entries.foldlM bracket? []

/-- Entries whose brackets match and leave the given nodes open, and whose depths are the number
of nodes open: before the entry, or behind it if it closes one. -/
structure Nested (entries : List TraceEntry) (opened : List NodeId) : Prop where
  matching : openNodes? entries = some opened
  depth : ∀ front e back, entries = front ++ e :: back →
    ∃ inside, openNodes? (if e.kind = .exit then front ++ [e] else front) = some inside ∧
      e.depth = inside.length

theorem openNodes?_append (entries : List TraceEntry) (e : TraceEntry) :
    openNodes? (entries ++ [e]) = (openNodes? entries).bind (bracket? · e) := by
  simp [openNodes?, List.foldlM_append]

theorem bracket?_of_ne {e : TraceEntry} (henter : e.kind ≠ .enter) (hexit : e.kind ≠ .exit)
    (opened : List NodeId) : bracket? opened e = some opened := by
  unfold bracket?
  cases hk : e.kind with
  | enter => exact absurd hk henter
  | exit => exact absurd hk hexit
  | _ => rfl

theorem Nested.nil : Nested [] [] where
  matching := rfl
  depth front e back h := by simp at h

theorem Nested.append {entries : List TraceEntry} {opened opened' : List NodeId} {e : TraceEntry}
    (h : Nested entries opened) (he : bracket? opened e = some opened')
    (hd : e.depth = if e.kind = .exit then opened'.length else opened.length) :
    Nested (entries ++ [e]) opened' where
  matching := by rw [openNodes?_append, h.matching, Option.bind_some, he]
  depth front e' back hsplit := by
    -- The list is split in front of the new entry, or further to the front.
    rcases List.eq_nil_or_concat back with rfl | ⟨back, last, rfl⟩
    · obtain ⟨rfl, he'⟩ := List.append_inj' hsplit rfl
      obtain rfl := List.singleton_inj.1 he'
      split at hd
      · next hx =>
        rw [if_pos hx]
        exact ⟨opened', by rw [openNodes?_append, h.matching, Option.bind_some, he], hd⟩
      · next hx =>
        rw [if_neg hx]
        exact ⟨opened, h.matching, hd⟩
    · rw [List.concat_eq_append, ← List.cons_append, ← List.append_assoc] at hsplit
      exact h.depth front e' back (List.append_inj' hsplit rfl).1

end Brackets

/-! ## Recording -/

section Recording

variable (t : Trace)

/-- The stack of a trace holds the nodes that its entries leave open, as long as none of them was
dropped. -/
structure Mirrors : Prop where
  depth : t.depth = t.stack.length
  entries : t.evicted = 0 → Nested t.toList (t.stack.map Frame.node)

variable {t}

@[simp] theorem stack_record (event : TraceEvent) (node : Option NodeId) (message : String)
    (value : Option Value) : (t.record event node message value).stack = t.stack := by
  rw [record, push]; split <;> rfl

@[simp] theorem depth_record (event : TraceEvent) (node : Option NodeId) (message : String)
    (value : Option Value) : (t.record event node message value).depth = t.depth := by
  rw [record, push]; split <;> rfl

/-- Without eviction a record adds an entry and leaves the others. -/
theorem toList_record {event : TraceEvent} {node : Option NodeId} {message : String}
    {value : Option Value} (h : (t.record event node message value).evicted = 0) :
    t.evicted = 0 ∧ ∃ e : TraceEntry, e.event = event ∧ e.node = node ∧ e.depth = t.depth ∧
      e.message = message ∧ e.value = (if t.settings.golf then none else value) ∧
      (t.record event node message value).toList = t.toList ++ [e] := by
  rw [record, push] at h ⊢
  split at h
  · exact absurd h (Nat.succ_ne_zero _)
  · next hc =>
    rw [if_neg hc]
    exact ⟨h, _, rfl, rfl, rfl, rfl, rfl, Window.toList_append _ _⟩

/-- An entry that is no bracket. -/
theorem Mirrors.record (h : t.Mirrors) {event : TraceEvent} (node : Option NodeId)
    (message : String) (value : Option Value) (henter : event ≠ .enter) (hexit : event ≠ .exit) :
    (t.record event node message value).Mirrors where
  depth := by rw [depth_record, stack_record, h.depth]
  entries hev := by
    obtain ⟨h0, e, he, -, hd, -, -, hlist⟩ := toList_record hev
    rw [hlist, stack_record]
    have hkind : e.kind ≠ .enter ∧ e.kind ≠ .exit := by
      rw [TraceEntry.kind, he]
      cases event <;> simp_all [TraceEvent.kind]
    refine (h.entries h0).append (bracket?_of_ne hkind.1 hkind.2 _) ?_
    rw [if_neg hkind.2, hd, h.depth, List.length_map]

theorem Mirrors.enter (h : t.Mirrors) (n : Node) : (t.enter n).Mirrors where
  depth := by simp [Trace.enter, h.depth]
  entries hev := by
    obtain ⟨h0, e, he, hn, hd, -, -, hlist⟩ := toList_record (t := t) hev
    have hkind : e.kind = .enter := by rw [TraceEntry.kind, he]; rfl
    show Nested (t.record .enter (some n.id) ("enter " ++ n.brief) none).toList _
    rw [hlist]
    refine (h.entries h0).append ?_ ?_
    · simp [bracket?, hkind, hn, Trace.enter]
    · simp [hkind, hd, h.depth]

/-- Unwinding to the node on top of a stack takes off its frame. -/
theorem unwind_cons (frame : Frame) (stack : List Frame) :
    unwind frame.node (frame :: stack) = stack := by
  simp [unwind]

theorem Mirrors.exit {outer : Trace} {frame : Frame} {n : Node} (h : t.Mirrors)
    (ht : t.stack = frame :: outer.stack) (hn : frame.node = n.id) (result : Value) :
    (t.exit n result).Mirrors ∧ (t.exit n result).stack = outer.stack := by
  -- The innermost open node is the one that ends, so no other frame is unwound.
  have hstack : unwind n.id t.stack = outer.stack := by rw [ht, ← hn, unwind_cons]
  have hdepth : t.depth - 1 = outer.stack.length := by simp [h.depth, ht]
  refine ⟨⟨?_, fun hev => ?_⟩, ?_⟩
  · simp [Trace.exit, hstack, hdepth]
  · obtain ⟨h0, e, he, hnode, hd, -, -, hlist⟩ := toList_record hev
    have hkind : e.kind = .exit := by rw [TraceEntry.kind, he]; rfl
    have hopen := h.entries h0
    rw [ht, List.map_cons, hn] at hopen
    rw [Trace.exit, hlist, stack_record, hstack]
    refine hopen.append ?_ ?_
    · simp [bracket?, hkind, hnode]
    · simp [hkind, hd, hdepth]
  · rw [Trace.exit, stack_record, hstack]

/-- What was done to a trace kept its stack in step with its entries, and ended what it began. -/
structure Returns (t u : Trace) : Prop where
  mirrors : t.Mirrors → u.Mirrors
  stack : u.stack = t.stack

theorem Returns.refl (t : Trace) : t.Returns t :=
  ⟨id, rfl⟩

theorem Returns.trans {t u v : Trace} (h : t.Returns u) (h' : u.Returns v) : t.Returns v :=
  ⟨h'.mirrors ∘ h.mirrors, h'.stack.trans h.stack⟩

theorem record_returns (t : Trace) {event : TraceEvent} (node : Option NodeId) (message : String)
    (value : Option Value) (henter : event ≠ .enter) (hexit : event ≠ .exit) :
    t.Returns (t.record event node message value) :=
  ⟨fun h => h.record node message value henter hexit, stack_record event node message value⟩

/-- Brackets around what returns. -/
theorem Returns.bracket {t u : Trace} {n : Node} (h : (t.enter n).Returns u) (result : Value) :
    t.Returns (u.exit n result) := by
  have hstack : u.stack = ⟨n.id, n.brief, t.depth⟩ :: t.stack := by
    rw [h.stack]
    simp [Trace.enter]
  refine ⟨fun ht => ?_, ?_⟩
  · exact ((h.mirrors (ht.enter n)).exit hstack rfl result).1
  · rw [Trace.exit, stack_record, hstack]
    exact unwind_cons _ _

end Recording

end Trace

/-! ## Evaluations -/

section Evaluations

variable {σ : Type} {ctx : EvalContext σ} {scope : Node → Prop} {s t : EvalState σ}

theorem EvalState.record_returns {trace : Trace} {f : Trace → Trace} (hs : s.trace = trace)
    (hf : ∀ t : Trace, t.Returns (f t)) : trace.Returns (s.record ctx f).trace := by
  rw [record_trace, hs]
  split
  · exact hf trace
  · exact .refl trace

theorem EvalState.bracket_returns {n : Node} {result : Value}
    (h : (s.enter ctx n).trace.Returns t.trace) :
    s.trace.Returns (t.leave ctx n result).trace := by
  rw [enter, record_trace] at h
  rw [leave, record_trace]
  split
  · next hon =>
    rw [if_pos hon] at h
    exact h.bracket result
  · next hoff =>
    rw [if_neg hoff] at h
    exact h

namespace Eval

open Trace (record_returns)

theorem move_returns (h : Move ctx scope s t) : s.trace.Returns t.trace := by
  cases h with
  | read s hn hk => exact .refl s.trace
  | fail s hn hf =>
    exact EvalState.record_returns rfl fun t => record_returns t _ _ _ nofun nofun
  | @decide n c yes no value s hn hk =>
    unfold EvalState.decided
    refine EvalState.record_returns rfl fun t => ?_
    have hcondition : t.Returns (t.condition c value) := record_returns t _ _ _ nofun nofun
    exact hcondition.trans (record_returns _ _ _ _ nofun nofun)
  | assign value s hn hk hc =>
    unfold EvalState.assigned
    exact EvalState.record_returns rfl fun t => record_returns t _ _ _ nofun nofun
  | perform s hn hk hc =>
    unfold EvalState.performed
    exact EvalState.record_returns rfl fun t => record_returns t _ _ _ nofun nofun
  | activate s hn hk =>
    unfold EvalState.activated
    exact EvalState.record_returns rfl fun t => record_returns t _ _ _ nofun nofun
  | remark text s hn =>
    exact EvalState.record_returns rfl fun t => record_returns t _ _ _ nofun nofun

/-- An evaluation that came to a value ended what it began, and kept the stack in step with the
entries. -/
theorem course_returns (h : Course ctx scope s t) : s.trace.Returns t.trace := by
  induction h with
  | done s => exact .refl s.trace
  | move first _ ih => exact (move_returns first).trans ih
  | within rule _ _ inner rest => exact inner.trans rest
  | bracket value _ _ _ inner rest => exact (EvalState.bracket_returns inner).trans rest

/-- An evaluation that was cut off still ended what it began. -/
theorem cut_returns {e : Error} (h : Cut ctx scope e s t) : s.trace.Returns t.trace := by
  induction h with
  | abort s hn he => exact EvalState.record_returns rfl fun t => record_returns t _ _ _ nofun nofun
  | after first _ ih => exact (course_returns first).trans ih
  | within rule _ inner => exact inner
  | bracket hn _ inner => exact EvalState.bracket_returns inner

/-- All nodes together are a scope. -/
theorem closed_all : Closed ctx fun _ => True where
  children _ _ := trivial
  rules _ := trivial

end Eval

namespace Evaluator

variable (e : Evaluator) (host : Host σ) (root : Node) (world : σ)

theorem start_mirrors (ctx : EvalContext σ) :
    (e.start ctx world).trace.Mirrors ∧ (e.start ctx world).trace.stack = [] := by
  have hempty : e.trace.reset.Mirrors := ⟨rfl, fun _ => .nil⟩
  have h : e.trace.reset.Returns (e.start ctx world).trace :=
    EvalState.record_returns rfl fun t => Trace.record_returns t _ _ _ nofun nofun
  exact ⟨h.mirrors hempty, h.stack⟩

theorem run_mirrors : (e.run host root world).evaluator.trace.Mirrors ∧
    (e.run host root world).evaluator.trace.stack = [] := by
  let ctx : EvalContext σ := ⟨host, e.settings, root.ruleTable⟩
  obtain ⟨hstart, hstack⟩ := e.start_mirrors world ctx
  -- However the evaluation ends, it returns to where it started.
  have hnode : Eval.Leads ctx (fun _ => True) (e.start ctx world)
      (EStateM.run (Eval.node ctx e.settings.maxDepth root) (e.start ctx world)) :=
    Eval.node_runs Eval.closed_all _ trivial _
  simp only [run, EStateM.run] at hnode ⊢
  split
  · next value s hs =>
    rw [hs] at hnode
    have h := Eval.course_returns hnode
    exact ⟨h.mirrors hstart, h.stack.trans hstack⟩
  · next err s hs =>
    rw [hs] at hnode
    have h := Eval.cut_returns hnode
    exact ⟨h.mirrors hstart, h.stack.trans hstack⟩

/-- **The trace mirrors the evaluation.** If no entry was dropped, the entries that begin and end
evaluations of nodes match, each one has the depth at which it stands, and nothing is left open,
however the evaluation ended. -/
theorem run_trace_nested (h : (e.run host root world).evaluator.trace.evicted = 0) :
    Trace.Nested (e.run host root world).evaluator.trace.toList [] ∧
      (e.run host root world).evaluator.trace.depth = 0 ∧
      (e.run host root world).evaluator.trace.stack = [] := by
  obtain ⟨hmirrors, hstack⟩ := e.run_mirrors host root world
  have hentries := hmirrors.entries h
  have hdepth := hmirrors.depth
  rw [hstack] at hentries hdepth
  exact ⟨hentries, hdepth, hstack⟩

/-- A rule that calls itself, so that its evaluation is begun twice and ends in an error. -/
def selfCall : Node :=
  .linked ⟨1⟩ (.rule { name := "loop" } (some (.linked ⟨2⟩ (.ruleCall "loop") []))) []

/-- A heading, three evaluations begun and ended, an activation and an error. -/
theorem run_trace_nested_selfCall :
    let t := ((ofSettings {}).run Environment.host selfCall {}).evaluator.trace
    t.size = 9 ∧ t.evicted = 0 ∧ Trace.Nested t.toList [] ∧ t.depth = 0 ∧ t.stack = [] :=
  ⟨by decide +kernel, by decide +kernel, run_trace_nested _ _ _ _ (by decide +kernel)⟩

end Evaluator

end Evaluations

end Rulebook
