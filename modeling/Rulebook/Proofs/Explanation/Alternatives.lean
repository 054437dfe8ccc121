import Rulebook.Proofs.Evaluation.Frequency
import Rulebook.Proofs.Evaluation.History
import Rulebook.Proofs.Explanation.WhyNot

/-!
# Branches that were not taken

Asked why an action was not performed, an explanation also says what would have happened: for each
decision that the trace knows of, what stands in the branch that was not taken. It goes by the first
entry of the decision that the trace holds. A decision in a rule may be made again with another
outcome, and then the branch that is described was taken after all.

## Main definitions

* `Explanation.untaken`: the branches that are described
* `Explanation.alternative`: the line that describes a branch

## Main results

* `Explanation.mem_untaken_iff`: they are the other branches of first decisions
* `Evaluator.alternatives_answer`: they were not taken, unless a rule around was called again
-/

namespace Rulebook

namespace Explanation

/-! ## First decisions -/

section Untaken

/-- What is kept are the first items with their keys. -/
theorem mem_firstOfEach_iff {α : Type} {key : α → NodeId} {met : List NodeId} {l : List α} {a : α} :
    a ∈ firstOfEach key met l ↔ key a ∉ met ∧ l.find? (key · = key a) = some a := by
  induction l generalizing met with
  | nil => simp [firstOfEach]
  | cons b rest ih =>
    rw [firstOfEach, List.find?_cons]
    split
    · next hmet =>
      rw [List.contains_iff_mem] at hmet
      rw [ih]
      refine and_congr_right fun ha => ?_
      have hne : key b ≠ key a := fun h => ha (h ▸ hmet)
      simp [hne]
    · next hmet =>
      rw [List.contains_iff_mem] at hmet
      rw [List.mem_cons, ih, List.mem_cons, not_or]
      by_cases hkey : key b = key a
      · rw [← hkey]
        simp [hmet, eq_comm]
      · have hne : a ≠ b := fun h => hkey (h ▸ rfl)
        simp [hkey, hne, Ne.symm hkey]

/-- The decision that an entry tells of. -/
def decision? (e : TraceEntry) : Option (NodeId × Branch) :=
  match e.event, e.node with
  | .decision branch, some id => some (id, branch)
  | _, _ => none

/-- The decisions that a trace knows of, in order. -/
def decided (trace : Trace) : List (NodeId × Branch) :=
  trace.toList.filterMap decision?

/-- The branches that are described: of each decision the one that it did not take at first. -/
def untaken (index : NodeIndex) (trace : Trace) : List (Node × Branch) :=
  (firstOfEach Prod.fst [] (decided trace)).filterMap fun (id, branch) =>
    (index.get? id).map fun decision => (decision, branch.other)

/-- The line that describes a branch: the consequences in it. -/
def alternative : Node × Branch → String
  | (decision, branch) =>
    let actions := ((branchNode? decision branch).map consequenceTexts).getD []
    "  - " ++ decision.label ++ ": " ++ branch.name ++
      if actions.isEmpty then " branch has no consequences"
      else " branch would have run " ++ ", ".intercalate actions

theorem alternatives_eq_map (index : NodeIndex) (trace : Trace) :
    alternatives index trace = (untaken index trace).map alternative := by
  rw [untaken, List.map_filterMap]
  refine List.filterMap_congr fun ⟨id, branch⟩ _ => ?_
  rw [Option.map_map]
  rfl

theorem decision?_eq_some_iff {e : TraceEntry} {id : NodeId} {taken : Branch} :
    decision? e = some (id, taken) ↔ e.node = some id ∧ e.event = .decision taken := by
  rw [decision?]
  split
  · next branch id' hevent hnode => simp [hevent, hnode, and_comm]
  · next hother =>
    exact iff_of_false (by simp) fun h => hother taken id h.2 h.1

theorem isOfKind_decision_iff {id : NodeId} {e : TraceEntry} :
    Trace.isOfKind id .decision e ↔ e.node = some id ∧ ∃ taken, e.event = .decision taken := by
  rw [Trace.isOfKind, Bool.and_eq_true, beq_iff_eq, beq_iff_eq, TraceEntry.kind]
  refine and_congr_right fun _ => ?_
  constructor
  · intro hkind
    cases hevent : e.event with
    | decision taken => exact ⟨taken, rfl⟩
    | _ => rw [hevent] at hkind; cases hkind
  · rintro ⟨taken, hevent⟩
    rw [hevent]
    rfl

/-- An entry tells of a decision at a node if it is of this kind. -/
theorem any_decision?_eq (id : NodeId) (e : TraceEntry) :
    (decision? e).any (·.1 = id) = Trace.isOfKind id .decision e := by
  rw [Bool.eq_iff_iff, Option.any_eq_true, isOfKind_decision_iff]
  simp only [Prod.exists, decision?_eq_some_iff, decide_eq_true_eq]
  exact ⟨fun ⟨_, taken, ⟨hnode, hevent⟩, hid⟩ => hid ▸ ⟨hnode, taken, hevent⟩,
    fun ⟨hnode, taken, hevent⟩ => ⟨id, taken, ⟨hnode, hevent⟩, rfl⟩⟩

/-- The first decision that a trace knows of at a node. -/
theorem find?_decided_eq_some_iff {trace : Trace} {id : NodeId} {taken : Branch} :
    (decided trace).find? (·.1 = id) = some (id, taken) ↔
      ∃ e, trace.toList.find? (Trace.isOfKind id .decision) = some e ∧
        e.event = .decision taken := by
  rw [decided, List.find?_filterMap, Option.bind_eq_some_iff]
  simp only [any_decision?_eq, decision?_eq_some_iff]
  exact exists_congr fun e => and_congr_right fun he =>
    and_iff_right (isOfKind_decision_iff.1 (List.find?_some he)).1

/-- The branches that are described are those that first decisions did not take. -/
theorem mem_untaken_iff {root : Node} (hids : (root.nodes.map Node.id).Nodup) {trace : Trace}
    {d : Node} {branch : Branch} :
    (d, branch) ∈ untaken (.ofNode root) trace ↔ d ∈ root.nodes ∧
      ∃ e taken, trace.toList.find? (Trace.isOfKind d.id .decision) = some e ∧
        e.event = .decision taken ∧ branch = taken.other := by
  rw [untaken, List.mem_filterMap]
  simp only [Option.map_eq_some_iff, NodeIndex.get?_ofNode_eq_some_iff hids, Prod.mk.injEq,
    Prod.exists, mem_firstOfEach_iff]
  constructor
  · rintro ⟨id, taken, ⟨-, hfirst⟩, decision, ⟨hd, rfl⟩, rfl, rfl⟩
    obtain ⟨e, he, hevent⟩ := find?_decided_eq_some_iff.1 hfirst
    exact ⟨hd, e, taken, he, hevent, rfl⟩
  · rintro ⟨hd, e, taken, he, hevent, rfl⟩
    exact ⟨d.id, taken, ⟨List.not_mem_nil, find?_decided_eq_some_iff.2 ⟨e, he, hevent⟩⟩, d,
      ⟨hd, rfl⟩, rfl, rfl⟩

theorem mem_titled {title remark item : String} {items : List String} (h : item ∈ items) :
    item ∈ titled title remark items := by
  rw [titled, if_neg (by simpa using List.ne_nil_of_mem h)]
  exact List.mem_cons_of_mem _ (List.mem_cons_of_mem _ h)

/-- The answer to the question why an action was not performed has a part on alternatives. -/
theorem exists_lines_eq_alternatives {root : Node} {trace : Trace} {action : String}
    {answer : List String} (h : lines root trace (.whyNot action) = .ok answer) :
    ∃ front back, answer = front ++
      titled "What would have happened:" "no alternatives recorded"
        ((untaken (.ofNode root) trace).map alternative) ++ back := by
  obtain ⟨target, -, rfl⟩ := exists_of_lines_whyNot trace h
  rw [omissions, alternatives_eq_map, ← List.append_assoc]
  exact ⟨_, _, rfl⟩

end Untaken

end Explanation

/-! ## Runs -/

namespace Evaluator

open Explanation

variable {σ : Type} (e : Evaluator) (host : Host σ) (root : Node) (world : σ)

/-- Two entries about a decision. -/
theorem two_le_decisions {t : Trace} {id : NodeId} {a b : TraceEntry} (ha : a ∈ t.toList)
    (hb : b ∈ t.toList) (hne : a ≠ b) (haid : Trace.isOfKind id .decision a)
    (hbid : Trace.isOfKind id .decision b) : 2 ≤ t.decisions id := by
  have hpair : [a, b].Subperm (t.toList.filter (Trace.isOfKind id .decision)) := by
    refine List.subperm_of_subset (by simpa using hne) ?_
    simp [ha, hb, haid, hbid]
  rw [Trace.decisions, List.countP_eq_length_filter]
  exact hpair.length_le

/-- **Alternatives were not taken at first.** Asked why an action was not performed, an explanation
has a part on what would have happened. For each decision that the trace still knows of, it
describes the branch that the first of its entries did not take. If another entry says that this
branch was taken, then the decision stands in a rule, and the innermost rule around it was activated
more than once. -/
theorem alternatives_answer (hids : (root.nodes.map Node.id).Nodup) {action : String}
    {answer : List String}
    (hanswer : lines root (e.run host root world).evaluator.trace (.whyNot action) = .ok answer) :
    let r := e.run host root world
    let described := untaken (.ofNode root) r.evaluator.trace
    explain r.tree r.evaluator.trace (.whyNot action) =
        .ok (String.join (answer.map (· ++ "\n"))) ∧
      (∃ front back, answer = front ++
        titled "What would have happened:" "no alternatives recorded"
          (described.map alternative) ++ back) ∧
      (∀ d branch, (d, branch) ∈ described ↔ d ∈ root.nodes ∧
        ∃ entry taken, r.evaluator.trace.toList.find? (Trace.isOfKind d.id .decision) = some entry ∧
          entry.event = .decision taken ∧ branch = taken.other) ∧
      ∀ d branch, (d, branch) ∈ described → ∀ entry ∈ r.evaluator.trace.toList,
        entry.node = some d.id → entry.event = .decision branch →
        ∃ rule, root.IsInnermost (·.kind.rule?.isSome) d rule ∧
          ∃ n ∈ r.tree.nodes, n.id = rule.id ∧ ∃ head ∈ n.kind.rule?, 2 ≤ head.activations := by
  intro r described
  have hmem (d : Node) (branch : Branch) : (d, branch) ∈ described ↔ _ := mem_untaken_iff hids
  refine ⟨?_, exists_lines_eq_alternatives hanswer, hmem, ?_⟩
  · rw [e.explain_tree_run host root world, explain, hanswer]
    rfl
  intro d branch hdescribed entry hentry hnode hevent
  obtain ⟨hd, first, taken, hfirst, hfirstEvent, rfl⟩ := (hmem d branch).1 hdescribed
  -- The two entries are different, so the decision was made twice.
  have htwice : 2 ≤ r.evaluator.trace.decisions d.id := by
    refine two_le_decisions (List.mem_of_find?_eq_some hfirst) hentry ?_ (List.find?_some hfirst)
      (isOfKind_decision_iff.2 ⟨hnode, _, hevent⟩)
    rintro rfl
    rw [hevent] at hfirstEvent
    cases taken <;> cases hfirstEvent
  obtain ⟨guard, hguard⟩ := Node.exists_isGuard hids d
  obtain ⟨executed, count, htree, hle⟩ := e.decisions_run_le host root world hids hd hguard
  cases guard with
  | none => exact absurd (htwice.trans hle) (by simp)
  | some rule =>
    refine ⟨rule, hguard, rule.withMarks executed count, ?_, rule.id_withMarks executed count, ?_⟩
    · rw [htree, Node.nodes_withMarks]
      exact List.mem_map_of_mem hguard.mem
    · obtain ⟨head, hhead⟩ := Option.isSome_iff_exists.1 hguard.holds
      refine ⟨{ head with activations := count rule.id }, ?_, htwice.trans hle⟩
      rw [Node.rule?_withMarks, hhead]
      rfl

/-- A rule that is activated in its place and by a call. Its decision has another outcome the second
time, since it clears the variable that it depends on. -/
def toggling : Node :=
  let body : Node :=
    .linked ⟨3⟩ (.decision (some (.linked ⟨4⟩ (.identifier "x") []))
      (some (.linked ⟨5⟩ (.consequence { action := "x", kind := .assign })
        [.linked ⟨6⟩ (.literal (.bool false)) []]))
      (some (.linked ⟨7⟩ (.consequence { action := "skip", kind := .verdict .skip }) []))) []
  .linked ⟨1⟩ .block
    [.linked ⟨2⟩ (.rule { name := "r" } (some body)) [], .linked ⟨8⟩ (.ruleCall "r") []]

/-- The evaluation of the rule while the variable is set. -/
def toggled : Result Environment :=
  (ofSettings {}).run Environment.host toggling (({} : Environment).set "x" (.bool true))

/-- A branch of the decision is described, and was taken the second time. -/
theorem exists_taken_toggled :
    ∃ d, (d, .no) ∈ untaken (.ofNode toggling) toggled.evaluator.trace ∧
      alternative (d, .no) = "  - if x: ELSE branch would have run skip" ∧
      ∃ entry ∈ toggled.evaluator.trace.toList, entry.node = some d.id ∧
        entry.event = .decision .no := by
  have hany : (untaken (.ofNode toggling) toggled.evaluator.trace).any fun described =>
      described.2 == .no &&
        alternative described == "  - if x: ELSE branch would have run skip" &&
        toggled.evaluator.trace.toList.any fun entry =>
          decision? entry == some (described.1.id, .no) := by
    decide +kernel
  obtain ⟨⟨d, branch⟩, hdescribed, htest⟩ := List.any_eq_true.1 hany
  simp only [Bool.and_eq_true, beq_iff_eq, List.any_eq_true, decision?_eq_some_iff] at htest
  obtain ⟨⟨rfl, hline⟩, htaken⟩ := htest
  exact ⟨d, hdescribed, hline, htaken⟩

theorem exists_lines_toggled :
    ∃ answer, lines toggling toggled.evaluator.trace (.whyNot "skip") = .ok answer := by
  obtain ⟨target, htarget⟩ : ∃ target, toggling.findConsequence? "skip" = some target :=
    Option.isSome_iff_exists.1 (by decide +kernel)
  exact ⟨_, lines_whyNot _ htarget⟩

/-- The branch that was taken stands in a rule that was activated twice. -/
theorem alternatives_answer_toggled :
    (toggling.nodes.map Node.id).Nodup ∧
      ∃ answer, lines toggling toggled.evaluator.trace (.whyNot "skip") = .ok answer ∧
        explain toggled.tree toggled.evaluator.trace (.whyNot "skip") =
          .ok (String.join (answer.map (· ++ "\n"))) ∧
        ∃ d, (d, .no) ∈ untaken (.ofNode toggling) toggled.evaluator.trace ∧
          (∃ entry ∈ toggled.evaluator.trace.toList, entry.node = some d.id ∧
            entry.event = .decision .no) ∧
          ∃ rule, toggling.IsInnermost (·.kind.rule?.isSome) d rule ∧
            ∃ n ∈ toggled.tree.nodes, n.id = rule.id ∧
              ∃ head ∈ n.kind.rule?, 2 ≤ head.activations := by
  have hids : (toggling.nodes.map Node.id).Nodup := by decide +kernel
  obtain ⟨answer, hanswer⟩ := exists_lines_toggled
  obtain ⟨htext, -, -, htwice⟩ := alternatives_answer (ofSettings {}) Environment.host toggling
    (({} : Environment).set "x" (.bool true)) hids hanswer
  obtain ⟨d, hdescribed, -, entry, hentry, hnode, hevent⟩ := exists_taken_toggled
  exact ⟨hids, answer, hanswer, htext, d, hdescribed, ⟨entry, hentry, hnode, hevent⟩,
    htwice d .no hdescribed entry hentry hnode hevent⟩

/-- The explanation says of a branch that it was not taken, and the trace that it was. -/
theorem untaken_taken_toggled :
    (toggling.nodes.map Node.id).Nodup ∧ (ofSettings {}).settings.traces = true ∧
      ∃ answer, lines toggling toggled.evaluator.trace (.whyNot "skip") = .ok answer ∧
        "  - if x: ELSE branch would have run skip" ∈ answer ∧
        ∃ d, alternative (d, .no) = "  - if x: ELSE branch would have run skip" ∧
          (d, .no) ∈ untaken (.ofNode toggling) toggled.evaluator.trace ∧
          ∃ entry ∈ toggled.evaluator.trace.toList, entry.node = some d.id ∧
            entry.event = .decision .no := by
  have hids : (toggling.nodes.map Node.id).Nodup := by decide +kernel
  obtain ⟨answer, hanswer⟩ := exists_lines_toggled
  obtain ⟨front, back, hparts⟩ := exists_lines_eq_alternatives hanswer
  obtain ⟨d, hdescribed, hline, htaken⟩ := exists_taken_toggled
  refine ⟨hids, rfl, answer, hanswer, ?_, d, hline, hdescribed, htaken⟩
  rw [hparts, ← hline]
  exact List.mem_append_left _ (List.mem_append_right _
    (mem_titled (List.mem_map_of_mem hdescribed)))

end Evaluator

end Rulebook
