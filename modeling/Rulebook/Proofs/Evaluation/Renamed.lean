import Rulebook.Proofs.Evaluation.Recording
import Rulebook.Proofs.Evaluation.Related
import Rulebook.Proofs.Evaluation.Tallies
import Rulebook.Proofs.Explanation.Renamed
import Rulebook.Proofs.Node.Copied

/-!
# Evaluations do not depend on identities

An evaluation tells nodes apart by their identities, and does nothing else with them. So a tree
under other identities has the same evaluations, with traces about the other nodes.

## Main definitions

* `EvalState.Renamed`: states that are about the nodes of two trees
* `Node.place`: where a node stands in preorder

## Main results

* `Eval.node_renamed`: evaluations of trees under other identities come to the same
* `Evaluator.run_copy`: a copy of a tree is evaluated and explained like the tree
-/

namespace Rulebook

variable {σ : Type} {ρ : NodeId → NodeId}

/-! ## States -/

/-- Two states agree, and what they hold about nodes is about nodes that correspond to each
other. -/
structure EvalState.Renamed (ρ : NodeId → NodeId) (s t : EvalState σ) : Prop where
  world : t.world = s.world
  trace : s.trace.Renamed ρ t.trace
  stats : t.stats = s.stats
  depth : t.depth = s.depth
  active : t.active = s.active
  faults : t.faults = s.faults
  counts : ∀ id, t.marks.count (ρ id) = s.marks.count id

namespace Eval

section Renamed

variable {host : Host σ} {settings : EvalSettings} {rules rules' : Dict Node}

theorem record_renamed {s t : EvalState σ} (h : s.Renamed ρ t) {f g : Trace → Trace}
    (hfg : s.trace.Renamed ρ t.trace → (f s.trace).Renamed ρ (g t.trace)) :
    (s.record ⟨host, settings, rules⟩ f).Renamed ρ (t.record ⟨host, settings, rules'⟩ g) := by
  unfold EvalState.record
  dsimp only
  split
  · exact { h with trace := hfg h.trace }
  · exact h

/-- The moves of an evaluation do not depend on identities. -/
theorem renamed_keeps (hρ : Function.Injective ρ) :
    Keeps ⟨host, settings, rules⟩ ⟨host, settings, rules'⟩ (Node.Renamed ρ)
      (@EvalState.Renamed σ ρ) where
  golf := rfl
  maxDepth := rfl
  active h := h.active
  activate h active := { h with active := rfl }
  read := by
    intro s t h name
    rw [h.world]
    exact ⟨rfl, { h with world := rfl }⟩
  perform := by
    intro s t h n m hnm c c' haction hkind
    refine ⟨by rw [h.world], ?_⟩
    simp only [EvalState.performed, h.world, h.stats, haction, hkind]
    refine record_renamed ?_ fun ht => ht.perform hρ (.consequence hnm _)
    exact { h with world := rfl, stats := rfl, counts := h.counts }
  assigned := by
    intro s t h n m hnm name value
    simp only [EvalState.assigned, h.world]
    refine record_renamed ?_ fun ht => ht.perform hρ (.change hnm _ _ _)
    exact { h with world := rfl, counts := h.counts }
  decided := by
    intro s t h n m c d hnm hcd value
    simp only [EvalState.decided, h.stats]
    refine record_renamed ?_ fun ht => ?_
    · exact { h with stats := rfl }
    · have hcondition := ht.perform hρ (.condition hcd value)
      exact hcondition.perform hρ (.decision hnm _)
  activated := by
    intro s t h n m hnm head head' hname
    have hcounts (id : NodeId) :
        (t.marks.activate m.id).count (ρ id) = (s.marks.activate n.id).count id := by
      rw [Marks.count_activate, Marks.count_activate, hnm.id_eq, h.counts, h.counts]
      simp only [hρ.eq_iff]
    have hcount : (t.marks.activate m.id).count m.id = (s.marks.activate n.id).count n.id := by
      rw [← hcounts, hnm.id_eq]
    simp only [EvalState.activated, h.stats, hname, hcount]
    refine record_renamed ?_ fun ht => ht.perform hρ (.activation hnm _ _)
    exact { h with stats := rfl, counts := hcounts }
  failed := by
    intro s t h n m hnm fault
    have herror : EvalState.Renamed ρ
        (s.record ⟨host, settings, rules⟩ (·.error (some n.id) fault))
        (t.record ⟨host, settings, rules'⟩ (·.error (some m.id) fault)) :=
      record_renamed h fun ht => ht.perform hρ (.error hnm fault)
    exact { herror with faults := congrArg (Array.push · fault) herror.faults }
  error := by
    intro s t h n m hnm fault
    exact record_renamed h fun ht => ht.perform hρ (.error hnm fault)
  remark := by
    intro s t h n m hnm text
    exact record_renamed h fun ht => ht.perform hρ (.message hnm text)
  enter := by
    intro s t h n m hnm
    simp only [EvalState.enter, h.depth, h.stats]
    refine record_renamed ?_ fun ht => ht.perform hρ (.enter hnm)
    exact { h with depth := rfl, stats := rfl }
  leave := by
    intro s t h n m hnm value
    simp only [EvalState.leave, h.depth]
    refine record_renamed ?_ fun ht => ht.perform hρ (.exit hnm value)
    exact { h with depth := rfl }

/-- Evaluations of trees under other identities come to the same. -/
theorem node_renamed (hρ : Function.Injective ρ)
    (hrules : ∀ name, Option.Rel (Node.Renamed ρ) (rules.find? name) (rules'.find? name))
    (levels : Nat) {n m : Node} (h : n.Renamed ρ m) :
    Related (EvalState.Renamed ρ) (node ⟨host, settings, rules⟩ levels n)
      (node ⟨host, settings, rules'⟩ levels m) :=
  (renamed_keeps hρ).node (fun h => ⟨h, h.kind, h.children⟩) hrules levels h

end Renamed

end Eval

/-! ## Runs -/

/-- Where the node with an identity stands among the nodes of a tree, in preorder. -/
def Node.place (root : Node) (id : NodeId) : NodeId :=
  ⟨(root.nodes.map Node.id).idxOf id⟩

theorem Node.Renamed.place_eq (hρ : Function.Injective ρ) {root root' : Node}
    (h : root.Renamed ρ root') (id : NodeId) : root'.place (ρ id) = root.place id := by
  have hindex (ids : List NodeId) : (ids.map ρ).idxOf (ρ id) = ids.idxOf id := by
    induction ids with
    | nil => rfl
    | cons head ids ih => rw [List.map_cons, List.idxOf_cons, List.idxOf_cons, hρ.beq_eq, ih]
  rw [place, place, h.ids_eq, hindex]

namespace Evaluator

variable (e : Evaluator) (host : Host σ) (world : σ) {root root' : Node}

theorem start_renamed (hρ : Function.Injective ρ) {settings : EvalSettings}
    {rules rules' : Dict Node} : (e.start ⟨host, settings, rules⟩ world).Renamed ρ
      (e.start ⟨host, settings, rules'⟩ world) := by
  refine Eval.record_renamed ?_ fun ht => ht.perform hρ (.heading "evaluation")
  exact ⟨rfl, .reset rfl, rfl, rfl, rfl, rfl, fun _ => by simp [Marks.count]⟩

/-- Trees under other identities have the same evaluations, with traces that are about the other
nodes. -/
theorem run_renamed (hρ : Function.Injective ρ) (h : root.Renamed ρ root') :
    let r := e.run host root world
    let r' := e.run host root' world
    r'.value = r.value ∧ r'.world = r.world ∧ r'.evaluator.faults = r.evaluator.faults ∧
      r'.evaluator.stats = r.evaluator.stats ∧
      r'.evaluator.explanation = r.evaluator.explanation ∧
      r.evaluator.trace.Renamed ρ r'.evaluator.trace := by
  have hnode : Eval.Matching (EvalState.Renamed ρ) (e.outcome host root world)
      (e.outcome host root' world) :=
    Eval.node_renamed hρ h.ruleTable _ h _ _ (e.start_renamed host world hρ)
  have hanswer {t u : Trace} (ht : t.Renamed ρ u) :
      answer e.settings root' u = answer e.settings root t := by
    simp only [answer, explain_renamed hρ h ht]
  dsimp only
  rw [run_eq, run_eq]
  generalize e.outcome host root world = r, e.outcome host root' world = r' at hnode
  cases hnode with
  | ok v hst => exact ⟨rfl, hst.world, hst.faults, hst.stats, hanswer hst.trace, hst.trace⟩
  | error err hst =>
    exact ⟨rfl, hst.world, congrArg (Array.push · _) hst.faults, hst.stats, hanswer hst.trace,
      hst.trace⟩

/-- Entries are about nodes of the tree. -/
theorem mem_nodes_of_mem_trace {entry : TraceEntry}
    (hentry : entry ∈ (e.run host root world).evaluator.trace.toList) {id : NodeId}
    (hid : entry.node = some id) : ∃ n ∈ root.nodes, n.id = id := by
  obtain ⟨r, hr, -, hnode⟩ := e.exists_due_of_mem_trace host root world hentry
  rw [hid] at hnode
  cases hr with
  | heading => cases hnode
  | @condition n c yes no value hn hk =>
    have hc : c ∈ n.childNodes := by simp [Node.childNodes, hk, Kind.operands, Kind.slots]
    exact ⟨c, Node.mem_nodes_of_mem_childNodes_of_mem hn hc, (Option.some_inj.1 hnode).symm⟩
  | _ => exact ⟨_, by assumption, (Option.some_inj.1 hnode).symm⟩

/-- **Evaluations do not depend on identities.** A tree without repeated identities and a copy of it
have the same value, state of the host, faults, counters and explanation. Their traces are about
nodes of the tree and of the copy, and the same once these are told by their places, times apart. -/
theorem run_copy (hids : (root.nodes.map Node.id).Nodup) (next : NodeId) :
    let copy := (root.copy next).1
    let r := e.run host root world
    let r' := e.run host copy world
    r'.value = r.value ∧ r'.world = r.world ∧ r'.evaluator.faults = r.evaluator.faults ∧
      r'.evaluator.stats = r.evaluator.stats ∧
      r'.evaluator.explanation = r.evaluator.explanation ∧
      (∀ entry ∈ r.evaluator.trace.toList, ∀ id, entry.node = some id →
        ∃ n ∈ root.nodes, n.id = id) ∧
      (∀ entry ∈ r'.evaluator.trace.toList, ∀ id, entry.node = some id →
        ∃ n ∈ copy.nodes, n.id = id) ∧
      r'.evaluator.trace.toList.map (fun entry => (entry.rename copy.place).timeless) =
        r.evaluator.trace.toList.map (fun entry => (entry.rename root.place).timeless) := by
  obtain ⟨ρ, hρ, hcopy⟩ := Node.exists_renamed_copy hids next
  obtain ⟨hvalue, hworld, hfaults, hstats, hexplanation, htrace⟩ :=
    e.run_renamed host world hρ hcopy
  refine ⟨hvalue, hworld, hfaults, hstats, hexplanation,
    fun _ hentry _ hid => e.mem_nodes_of_mem_trace host world hentry hid,
    fun _ hentry _ hid => e.mem_nodes_of_mem_trace host world hentry hid, ?_⟩
  have hplace : (root.copy next).1.place ∘ ρ = root.place := funext (hcopy.place_eq hρ)
  rw [htrace.entries, List.map_map]
  refine List.map_congr_left fun entry _ => ?_
  rw [Function.comp_apply, TraceEntry.rename_rename, hplace]

/-- A decision on a sum, explained from the last entries of its trace. -/
theorem run_copy_scoring :
    let e := ofSettings { traceLimit := some 12, question := some (.whyNot "win") }
    let copy := (scoring.copy ⟨20⟩).1
    let r := e.run Environment.host scoring {}
    let r' := e.run Environment.host copy {}
    (scoring.nodes.map Node.id).Nodup ∧ copy.id = ⟨31⟩ ∧ r.evaluator.trace.size = 12 ∧
      r'.evaluator.explanation = r.evaluator.explanation ∧
      r'.evaluator.trace.toList.map (fun entry => (entry.rename copy.place).timeless) =
        r.evaluator.trace.toList.map (fun entry => (entry.rename scoring.place).timeless) :=
  have hids : (scoring.nodes.map Node.id).Nodup := by decide +kernel
  have h := run_copy (ofSettings { traceLimit := some 12, question := some (.whyNot "win") })
    Environment.host {} hids ⟨20⟩
  ⟨hids, by decide +kernel, by decide +kernel, h.2.2.2.2.1, h.2.2.2.2.2.2.2⟩

end Evaluator

end Rulebook
