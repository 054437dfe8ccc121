import Mathlib.Data.List.Nodup
import Rulebook.Proofs.Evaluation.Recording
import Rulebook.Proofs.Evaluation.Tallies
import Rulebook.Proofs.Node.Unmarked

/-!
# Whether an action ran

Asked why an action was not performed, an explanation looks at one node: the first in preorder that
carries the action. It admits that the action ran if the trace has an outcome of this node, which
is so if the node is flagged.

## Main definitions

* `Explanation.didRun`: the line that admits that an action ran

## Main results

* `Explanation.didRun_mem_lines_iff`: the line is there if the trace has an outcome of the node
* `Evaluator.exists_assignment_of_change`: only assignments change variables
* `Evaluator.didRun_mem_answer`: the line is there if the node is flagged
-/

namespace Rulebook

/-! ## Lines -/

namespace Explanation

/-- The line that admits that an action ran. -/
def didRun : String := "  It did run; see the consequences below."

section Lines

variable (index : NodeIndex) (trace : Trace)

theorem append_ne {front line : String} (h : ¬ front.toList <+: line.toList) (s : String) :
    front ++ s ≠ line := by
  rintro rfl
  exact h (by rw [String.toList_append]; exact List.prefix_append _ _)

theorem item_ne (s : String) : "  - " ++ s ≠ didRun :=
  append_ne (by decide) s

theorem didRun_not_mem_titled {title remark : String} {items : List String}
    (htitle : title ≠ didRun) (hitems : didRun ∉ items) : didRun ∉ titled title remark items := by
  have hremark : "  (" ++ remark ++ ")" ≠ didRun := by
    rw [String.append_assoc]
    exact append_ne (by decide) _
  rw [titled, List.mem_cons, List.mem_cons]
  rintro (h | h | h)
  · exact absurd h (by decide)
  · exact htitle h.symm
  · split at h
    · exact hremark (List.mem_singleton.1 h).symm
    · exact hitems h

/-- What starts with a number is another line. -/
theorem numbered_ne (k : Nat) (s : String) : "  " ++ toString k ++ s ≠ didRun := by
  intro h
  obtain ⟨c, cs, hdigits⟩ := List.exists_cons_of_ne_nil (Nat.toDigits_ne_nil (b := 10) (n := k))
  have hdigit : c.isDigit := Nat.isDigit_of_mem_toDigits (by decide) (by decide)
    (hdigits ▸ List.mem_cons_self : c ∈ Nat.toDigits 10 k)
  have hchars := congrArg String.toList h
  simp only [Nat.toString_eq_ofList_toDigits, hdigits, String.toList_append,
    String.toList_ofList] at hchars
  obtain rfl : c = 'I' := (List.cons.inj (List.cons.inj (List.cons.inj hchars).2).2).1
  exact absurd hdigit (by decide)

theorem didRun_not_mem_account : didRun ∉ account index trace := by
  have hsteps : didRun ∉ decisionSteps index trace := by
    rw [decisionSteps, List.mem_map]
    rintro ⟨⟨step, i⟩, -, h⟩
    dsimp only at h
    rw [String.append_assoc] at h
    exact numbered_ne (i + 1) _ h
  have hconditions : didRun ∉ conditionResults index trace := by
    rw [conditionResults, List.mem_map]
    rintro ⟨⟨id, result, value⟩, -, h⟩
    simp only [String.append_assoc] at h
    exact item_ne _ h
  have hconsequences : didRun ∉ consequenceResults trace := by
    rw [consequenceResults, List.mem_filterMap]
    rintro ⟨e, -, h⟩
    split at h
    · simp only [String.append_assoc] at h
      exact item_ne _ (Option.some.inj h)
    · cases h
  have hrules : didRun ∉ ruleReport trace := by
    rw [ruleReport, List.mem_map]
    rintro ⟨⟨name, count⟩, -, h⟩
    simp only [String.append_assoc] at h
    exact append_ne (by decide) _ h
  simp only [account, List.mem_append, not_or]
  exact ⟨⟨⟨didRun_not_mem_titled (by decide) hsteps, didRun_not_mem_titled (by decide) hconditions⟩,
    didRun_not_mem_titled (by decide) hconsequences⟩, didRun_not_mem_titled (by decide) hrules⟩

theorem didRun_not_mem_omissions : didRun ∉ omissions index trace := by
  have halternatives : didRun ∉ alternatives index trace := by
    rw [alternatives, List.mem_filterMap]
    rintro ⟨⟨id, branch⟩, -, h⟩
    obtain ⟨decision, -, h⟩ := Option.map_eq_some_iff.1 h
    simp only [String.append_assoc] at h
    exact item_ne _ h
  have herrors : didRun ∉ errorReport index trace := by
    rw [errorReport, List.mem_filterMap]
    rintro ⟨e, -, h⟩
    split at h
    · simp only [String.append_assoc] at h
      exact item_ne _ (Option.some.inj h)
    · cases h
  rw [omissions, List.mem_append, not_or]
  exact ⟨didRun_not_mem_titled (by decide) halternatives, didRun_not_mem_titled (by decide) herrors⟩

theorem decisionBlocker?_ne (decision : Node) (condition : Option Node) (child : NodeId) :
    decisionBlocker? trace decision condition child ≠ some didRun := by
  intro h
  unfold decisionBlocker? at h
  split at h
  · cases h
  · split at h
    · split at h
      · split at h
        · cases h
        · simp only [String.append_assoc] at h
          exact item_ne _ (Option.some.inj h)
      · cases h
    · rw [String.append_assoc] at h
      exact item_ne _ (Option.some.inj h)

theorem didRun_not_mem_blockers (path : List Node) : didRun ∉ blockers trace path := by
  rw [blockers, List.mem_filterMap]
  rintro ⟨⟨owner, child⟩, -, h⟩
  dsimp only at h
  unfold blocker? at h
  split at h
  · exact decisionBlocker?_ne trace _ _ _ h
  · split at h
    · simp only [String.append_assoc] at h
      exact append_ne (by decide) _ (Option.some.inj h)
    · cases h
  · split at h
    · simp only [String.append_assoc] at h
      exact item_ne _ (Option.some.inj h)
    · cases h
  · split at h
    · simp only [String.append_assoc] at h
      exact item_ne _ (Option.some.inj h)
    · cases h
  · cases h

theorem didRun_mem_whyNot_iff (target : Node) :
    didRun ∈ whyNot index trace target ↔ (trace.lastOfKind? target.id .consequence).isSome := by
  rw [whyNot]
  split
  · next h => exact iff_of_true List.mem_cons_self h
  · next h =>
    refine iff_of_false ?_ h
    split
    · decide
    · next path _ =>
      have hblockers := didRun_not_mem_blockers trace path
      split
      · split <;> decide
      · exact hblockers

/-- The lines of the answer to the question why an action was not performed. -/
theorem lines_whyNot {root target : Node} {action : String}
    (htarget : root.findConsequence? action = some target) :
    lines root trace (.whyNot action) =
      .ok (("Why not: " ++ target.label) :: whyNot (.ofNode root) trace target ++
        account (.ofNode root) trace ++ omissions (.ofNode root) trace) := by
  rw [lines, findTarget, htarget]
  rfl

/-- If there is an answer, then it is about the first consequence with the action. -/
theorem exists_of_lines_whyNot {root : Node} {action : String} {answer : List String}
    (h : lines root trace (.whyNot action) = .ok answer) :
    ∃ target, root.findConsequence? action = some target ∧
      answer = ("Why not: " ++ target.label) :: whyNot (.ofNode root) trace target ++
        account (.ofNode root) trace ++ omissions (.ofNode root) trace := by
  cases hfind : root.findConsequence? action with
  | none =>
    rw [lines, findTarget, hfind] at h
    cases h
  | some target =>
    exact ⟨target, rfl, Except.ok.inj (h.symm.trans (lines_whyNot trace hfind))⟩

/-- The line is there if the trace has an outcome of the node that the question is about. -/
theorem didRun_mem_lines_iff (target : Node) :
    didRun ∈ ("Why not: " ++ target.label) :: whyNot index trace target ++ account index trace ++
        omissions index trace ↔
      (trace.lastOfKind? target.id .consequence).isSome := by
  have hheading : "Why not: " ++ target.label ≠ didRun := append_ne (by decide) _
  rw [List.mem_append, List.mem_append, List.mem_cons, didRun_mem_whyNot_iff,
    or_iff_left (didRun_not_mem_omissions index trace),
    or_iff_left (didRun_not_mem_account index trace), or_iff_right hheading.symm]

end Lines

end Explanation

theorem Kind.eq_of_consequence? {α : Type} {k : Kind α} {c : Consequence}
    (h : k.consequence? = some c) : k = .consequence c := by
  cases k with
  | consequence d => exact congrArg _ (Option.some.inj h)
  | _ => cases h

namespace Node

theorem findConsequence?_eq (action : String) (n : Node) :
    n.findConsequence? action =
      n.nodes.find? fun m => m.kind.consequence?.any (·.action == action) :=
  find?_eq _ n

/-- A search for an action finds a consequence that carries it. -/
theorem exists_of_findConsequence? {action : String} {n target : Node}
    (h : n.findConsequence? action = some target) :
    target ∈ n.nodes ∧ ∃ c, target.kind = .consequence c ∧ c.action = action := by
  rw [findConsequence?_eq] at h
  refine ⟨List.mem_of_find?_eq_some h, ?_⟩
  have htest := List.find?_some h
  obtain ⟨c, hc, haction⟩ := (Option.any_eq_true _ _).1 htest
  exact ⟨c, Kind.eq_of_consequence? hc, beq_iff_eq.1 haction⟩

/-- Each action that some node carries is found. -/
theorem exists_findConsequence?_eq_some {action : String} {n m : Node} {c : Consequence}
    (hm : m ∈ n.nodes) (hk : m.kind = .consequence c) (hc : c.action = action) :
    ∃ target, n.findConsequence? action = some target := by
  rw [findConsequence?_eq, ← Option.isSome_iff_exists, List.find?_isSome]
  exact ⟨m, hm, by simp [hk, Kind.consequence?, hc]⟩

end Node

/-! ## Runs -/

namespace Evaluator

open Explanation (didRun lines)

variable {σ : Type} (e : Evaluator) (host : Host σ) (root : Node) (world : σ)

/-- An entry that says that a variable changed is about an assignment of the tree. -/
theorem exists_assignment_of_change {entry : TraceEntry}
    (h : entry ∈ (e.run host root world).evaluator.trace.toList) (hkind : entry.kind = .change) :
    ∃ n ∈ root.nodes, entry.node = some n.id ∧
      ∃ c, n.kind = .consequence c ∧ c.kind = .assign := by
  obtain ⟨r, hr, hevent, hnode⟩ := e.exists_due_of_mem_trace host root world h
  rw [TraceEntry.kind, hevent] at hkind
  cases hr with
  | change old new hn hk hc => exact ⟨_, hn, hnode, _, hk, hc⟩
  | _ => cases hkind

/-- The tree that an evaluation leaves is the tree with marks. -/
theorem exists_tree_run_eq : ∃ marks : Marks,
    (e.run host root world).tree = root.withMarks marks.isExecuted marks.count := by
  rw [run_eq]
  split
  · next s _ => exact ⟨s.marks, rfl⟩
  · next s _ => exact ⟨s.marks, rfl⟩

section Flags

variable {e host root world} (hids : (root.nodes.map Node.id).Nodup)
  (htraces : e.settings.traces = true)
  (hev : (e.run host root world).evaluator.trace.evicted = 0) {n : Node} {c : Consequence}
  (hn : n ∈ (e.run host root world).tree.nodes) (hk : n.kind = .consequence c)
include hids htraces hev hn hk

/-- A consequence is flagged if the trace says that it was performed or assigned. -/
theorem executed_iff_executes : c.executed = true ↔
    ∃ entry ∈ (e.run host root world).evaluator.trace.toList, entry.Executes n.id := by
  rw [run_eq_recorded] at hev hn ⊢
  exact (e.run_recorded_balanced host root world hids htraces hev).executed n hn c hk

/-- If it is no assignment, the trace has an outcome of it. -/
theorem executed_iff (hc : c.kind ≠ .assign) :
    c.executed = true ↔ ∃ entry ∈ (e.run host root world).evaluator.trace.toList,
      entry.node = some n.id ∧ entry.kind = .consequence := by
  rw [executed_iff_executes hids htraces hev hn hk]
  refine exists_congr fun entry => and_congr_right fun hentry => and_congr_right fun hnode => ?_
  refine or_iff_left fun hchange => ?_
  -- A change would be about an assignment, and no other node has its identity.
  obtain ⟨a, ha, hid, d, hd, hassign⟩ :=
    e.exists_assignment_of_change host root world hentry hchange
  obtain ⟨marks, htree⟩ := e.exists_tree_run_eq host root world
  rw [htree, Node.nodes_withMarks] at hn
  obtain ⟨m, hm, rfl⟩ := List.mem_map.1 hn
  rw [hnode, Node.id_withMarks] at hid
  obtain rfl : m = a := List.inj_on_of_nodup_map hids hm ha (Option.some.inj hid)
  have hmarked := m.consequence?_withMarks marks.isExecuted marks.count
  rw [hk, hd] at hmarked
  obtain rfl := Option.some.inj hmarked
  exact hc hassign

end Flags

/-- **Asked why an action was not performed, an explanation admits that it was.** If a trace is
kept, no entry was dropped and nodes can be told apart, then the explanation for an action that some
consequence carries is about the first one in preorder that does. It admits that the action ran
only if this one is flagged; and if it is flagged, and no assignment, then the explanation does. -/
theorem didRun_mem_answer (hids : (root.nodes.map Node.id).Nodup)
    (htraces : e.settings.traces = true)
    (hev : (e.run host root world).evaluator.trace.evicted = 0) {action : String}
    (haction : ∃ n ∈ root.nodes, ∃ c, n.kind = .consequence c ∧ c.action = action) :
    let r := e.run host root world
    ∃ target c answer, r.tree.findConsequence? action = some target ∧
      target.kind = .consequence c ∧ c.action = action ∧
      lines r.tree r.evaluator.trace (.whyNot action) = .ok answer ∧
      explain r.tree r.evaluator.trace (.whyNot action) =
        .ok (String.join (answer.map (· ++ "\n"))) ∧
      (didRun ∈ answer → c.executed = true) ∧
      (c.executed = true → c.kind ≠ .assign → didRun ∈ answer) := by
  intro r
  obtain ⟨target, htarget⟩ : ∃ target, r.tree.findConsequence? action = some target := by
    obtain ⟨n, hn, c, hk, hc⟩ := haction
    obtain ⟨target, htarget⟩ := Node.exists_findConsequence?_eq_some hn hk hc
    obtain ⟨marks, htree⟩ := e.exists_tree_run_eq host root world
    exact ⟨_, by rw [htree, Node.findConsequence?_withMarks, htarget, Option.map_some]⟩
  obtain ⟨hmem, c, hk, hc⟩ := Node.exists_of_findConsequence? htarget
  have hlines := Explanation.lines_whyNot r.evaluator.trace htarget
  refine ⟨target, c, _, htarget, hk, hc, hlines, by rw [explain, hlines]; rfl, ?_⟩
  rw [Explanation.didRun_mem_lines_iff, (e.run_linked host root world).isSome_lastOfKind?_iff]
  refine ⟨fun ⟨entry, hentry, hnode, hkind⟩ => ?_, fun hexecuted hassign => ?_⟩
  · exact (executed_iff_executes hids htraces hev hmem hk).2 ⟨entry, hentry, hnode, .inl hkind⟩
  · exact (executed_iff hids htraces hev hmem hk hassign).1 hexecuted

/-- The consequence of a decision was performed, and its explanation says so. -/
theorem didRun_mem_answer_scoring :
    let r := (ofSettings {}).run Environment.host scoring {}
    (scoring.nodes.map Node.id).Nodup ∧ (ofSettings {}).settings.traces = true ∧
      r.evaluator.trace.evicted = 0 ∧
      (∃ n ∈ scoring.nodes, ∃ c, n.kind = .consequence c ∧ c.action = "win") ∧
      ∃ target c answer, r.tree.findConsequence? "win" = some target ∧
        target.kind = .consequence c ∧ c.action = "win" ∧
        lines r.tree r.evaluator.trace (.whyNot "win") = .ok answer ∧
        explain r.tree r.evaluator.trace (.whyNot "win") =
          .ok (String.join (answer.map (· ++ "\n"))) ∧
        (didRun ∈ answer → c.executed = true) ∧
        (c.executed = true → c.kind ≠ .assign → didRun ∈ answer) := by
  have hids : (scoring.nodes.map Node.id).Nodup := by decide +kernel
  have hev : ((ofSettings {}).run Environment.host scoring {}).evaluator.trace.evicted = 0 := by
    decide +kernel
  have hwin : ∃ n ∈ scoring.nodes, ∃ c, n.kind = .consequence c ∧ c.action = "win" := by
    obtain ⟨target, htarget⟩ : ∃ target, scoring.findConsequence? "win" = some target :=
      Option.isSome_iff_exists.1 (by decide +kernel)
    exact ⟨target, Node.exists_of_findConsequence? htarget⟩
  exact ⟨hids, rfl, hev, hwin, didRun_mem_answer _ _ _ _ hids rfl hev hwin⟩

/-- A decision between two consequences with one action. -/
def sameAction : Node :=
  let win (id : Nat) : Node :=
    .linked ⟨id⟩ (.consequence { action := "win", kind := .verdict .win }) []
  .linked ⟨1⟩ (.decision (some (.linked ⟨2⟩ (.literal (.bool false)) [])) (some (win 3))
    (some (win 4))) []

/-- The second consequence with an action was performed. The explanation is about the first one, and
does not admit that the action ran. -/
theorem didRun_not_mem_answer_sameAction :
    let r := (ofSettings {}).run Environment.host sameAction {}
    (sameAction.nodes.map Node.id).Nodup ∧ (ofSettings {}).settings.traces = true ∧
      r.evaluator.trace.evicted = 0 ∧
      (∃ n ∈ r.tree.nodes, ∃ c, n.kind = .consequence c ∧ c.action = "win" ∧ c.executed = true) ∧
      ∃ answer, lines r.tree r.evaluator.trace (.whyNot "win") = .ok answer ∧
        didRun ∉ answer := by
  intro r
  refine ⟨by decide +kernel, rfl, by decide +kernel, ?_, ?_⟩
  · have hany : r.tree.nodes.any fun n =>
        n.kind.consequence?.any fun c => c.action == "win" && c.executed := by decide +kernel
    obtain ⟨n, hn, htest⟩ := List.any_eq_true.1 hany
    obtain ⟨c, hc, hwin⟩ := (Option.any_eq_true _ _).1 htest
    rw [Bool.and_eq_true, beq_iff_eq] at hwin
    exact ⟨n, hn, c, Kind.eq_of_consequence? hc, hwin⟩
  · -- The explanation is about a node of which the trace has no outcome.
    have hnone : (r.tree.findConsequence? "win").any fun target =>
        (r.evaluator.trace.lastOfKind? target.id .consequence).isNone := by decide +kernel
    obtain ⟨target, htarget, hnone⟩ := (Option.any_eq_true _ _).1 hnone
    refine ⟨_, Explanation.lines_whyNot r.evaluator.trace htarget, ?_⟩
    rw [Explanation.didRun_mem_lines_iff, Option.isNone_iff_eq_none.1 hnone]
    exact Bool.false_ne_true

end Evaluator

end Rulebook
