import Mathlib.Algebra.BigOperators.Group.List.Lemmas
import Rulebook.Proofs.Evaluation.History
import Rulebook.Proofs.Evaluation.Invariant
import Rulebook.Proofs.Evaluation.Tallies
import Rulebook.Proofs.Explanation.Ends
import Rulebook.Proofs.Explanation.WhyNot

/-!
# The report on rules

Rules are activated one after the other, also within each other, by the tree around them or by
calls. Each activation is recorded with the name of the rule and with the number of activations of
its node so far. An explanation reports the names in the order in which they came up, each with the
number that was recorded last under it.

## Main definitions

* `Activation`: an activation that was recorded, and `Trace.activations`: those that a trace holds
* `Activation.Counted`: activations are numbered, node by node
* `Activation.report`: names and numbers as an explanation has them

## Main results

* `Activation.report_eq`: the names in order, each with the number that was recorded last
* `Activation.sum_report`: the numbers add up if names stand for nodes
* `Evaluator.activations_answer`: what the report of an answer says about the evaluation
-/

namespace Rulebook

/-- The activation of a rule: its node and its name, and how often the node has been activated. -/
structure Activation where
  node : NodeId
  name : String
  count : Nat

/-- The activation that an entry tells of. -/
def TraceEntry.activation? (e : TraceEntry) : Option Activation :=
  match e.event, e.node with
  | .activation name count, some id => some ⟨id, name, count⟩
  | _, _ => none

/-- The activations that a trace holds, in order. -/
def Trace.activations (t : Trace) : List Activation :=
  t.toList.filterMap TraceEntry.activation?

namespace Activation

/-! ## Numbers -/

section Counted

variable {acts : List Activation} {a : Activation}

/-- Activations are numbered, node by node. -/
def Counted (acts : List Activation) : Prop :=
  ∀ front a back, acts = front ++ a :: back → a.count = front.countP (·.node = a.node) + 1

theorem Counted.concat (h : Counted acts) (ha : a.count = acts.countP (·.node = a.node) + 1) :
    Counted (acts ++ [a]) := by
  intro front b back hsplit
  rcases List.eq_nil_or_concat back with rfl | ⟨back, last, rfl⟩
  · obtain ⟨rfl, hlast⟩ := List.append_inj' hsplit rfl
    obtain rfl := List.singleton_inj.1 hlast
    exact ha
  · rw [List.concat_eq_append, ← List.cons_append, ← List.append_assoc] at hsplit
    exact h front b back (List.append_inj' hsplit rfl).1

/-- The number that was recorded last under a name. -/
def lastCount (acts : List Activation) (name : String) : Nat :=
  ((acts.reverse.find? (·.name = name)).map count).getD 0

theorem lastCount_concat (acts : List Activation) (a : Activation) (name : String) :
    lastCount (acts ++ [a]) name = if a.name = name then a.count else lastCount acts name := by
  rw [lastCount, List.reverse_append, List.reverse_singleton, List.singleton_append,
    List.find?_cons]
  by_cases h : a.name = name <;> simp [h, lastCount]

/-- The number that was recorded last under a name is that of an activation with this name, behind
which there is none. -/
theorem exists_of_lastCount {name : String} (h : name ∈ acts.map Activation.name) :
    ∃ front a back, acts = front ++ a :: back ∧ a.name = name ∧ (∀ b ∈ back, b.name ≠ name) ∧
      lastCount acts name = a.count := by
  induction acts using List.reverseRecOn with
  | nil => cases h
  | append_singleton acts b ih =>
    rw [lastCount_concat]
    by_cases hb : b.name = name
    · exact ⟨acts, b, [], rfl, hb, by simp, if_pos hb⟩
    · rw [List.map_append, List.mem_append] at h
      have hacts := h.resolve_right (by simpa using Ne.symm hb)
      obtain ⟨front, a, back, rfl, ha, hback, hcount⟩ := ih hacts
      refine ⟨front, a, back ++ [b], by simp, ha, ?_, by rw [if_neg hb, hcount]⟩
      simpa [or_imp, forall_and] using ⟨hback, hb⟩

/-- If names stand for nodes, the number that was recorded last under a name is the number of
activations with this name. -/
theorem Counted.lastCount_eq (h : Counted acts)
    (hsame : ∀ a ∈ acts, ∀ b ∈ acts, a.node = b.node ↔ a.name = b.name) {name : String}
    (hname : name ∈ acts.map Activation.name) :
    lastCount acts name = acts.countP (·.name = name) := by
  obtain ⟨front, a, back, rfl, rfl, hback, hcount⟩ := exists_of_lastCount hname
  have hfront : front.countP (·.node = a.node) = front.countP (·.name = a.name) := by
    refine List.countP_congr fun b hb => ?_
    simpa using hsame b (by simp [hb]) a (by simp)
  have hnone : back.countP (·.name = a.name) = 0 :=
    List.countP_eq_zero.2 fun b hb => by simpa using hback b hb
  rw [hcount, h front a back rfl, List.countP_append, List.countP_cons, hfront, hnone]
  simp

end Counted

/-! ## Reports -/

section Reports

open Explanation (noteRule)

/-- Names and numbers as an explanation reports them. -/
def report (acts : List Activation) : List (String × Nat) :=
  acts.foldl (fun counts a => noteRule a.name a.count counts) []

/-- A number that is noted takes the place of the one that was noted under the same name. -/
theorem noteRule_map (name : String) (count : Nat) {names : List String} (hnames : names.Nodup)
    (f : String → Nat) :
    noteRule name count (names.map fun seen => (seen, f seen)) =
      (if name ∈ names then names else names ++ [name]).map fun seen =>
        (seen, if name = seen then count else f seen) := by
  induction names with
  | nil => simp [noteRule]
  | cons seen names ih =>
    obtain ⟨hseen, hnames⟩ := List.nodup_cons.1 hnames
    rw [List.map_cons, noteRule]
    by_cases hname : seen = name
    · subst hname
      have hrest : ∀ other ∈ names, (other, f other) =
          (other, if seen = other then count else f other) := by
        intro other hother
        rw [if_neg]
        rintro rfl
        exact hseen hother
      rw [if_pos rfl, if_pos List.mem_cons_self, List.map_cons, if_pos rfl,
        List.map_congr_left hrest]
    · rw [if_neg hname, ih hnames]
      by_cases hmem : name ∈ names <;> simp [hmem, Ne.symm hname]

theorem eraseDups_concat (names : List String) (name : String) :
    (names ++ [name]).eraseDups =
      if name ∈ names.eraseDups then names.eraseDups else names.eraseDups ++ [name] := by
  rw [List.eraseDups_append]
  by_cases h : name ∈ names <;> simp [h, List.removeAll, List.eraseDups_cons]

theorem nodup_eraseDups (names : List String) : names.eraseDups.Nodup := by
  induction names using List.reverseRecOn with
  | nil => exact List.nodup_nil
  | append_singleton names name ih =>
    rw [eraseDups_concat]
    split
    · exact ih
    · next hnew =>
      rw [← List.concat_eq_append]
      exact ih.concat hnew

/-- The names are reported in the order in which they came up, each with the number that was
recorded last under it. -/
theorem report_eq (acts : List Activation) :
    report acts = (acts.map Activation.name).eraseDups.map fun name =>
      (name, lastCount acts name) := by
  induction acts using List.reverseRecOn with
  | nil => rfl
  | append_singleton acts a ih =>
    have hreport : report (acts ++ [a]) = noteRule a.name a.count (report acts) := by
      rw [report, List.foldl_append]
      rfl
    rw [hreport, ih, noteRule_map _ _ (nodup_eraseDups _), List.map_append, List.map_singleton,
      eraseDups_concat]
    simp only [lastCount_concat]

/-- If names stand for nodes, the numbers that are reported add up to the number of activations. -/
theorem sum_report {acts : List Activation} (h : Counted acts)
    (hsame : ∀ a ∈ acts, ∀ b ∈ acts, a.node = b.node ↔ a.name = b.name) :
    ((report acts).map Prod.snd).sum = acts.length := by
  have hcounts : (report acts).map Prod.snd = (acts.map Activation.name).eraseDups.map fun name =>
      (acts.map Activation.name).count name := by
    rw [report_eq, List.map_map]
    refine List.map_congr_left fun name hname => ?_
    rw [Function.comp_apply, h.lastCount_eq hsame (List.mem_eraseDups.1 hname), List.count,
      List.countP_map]
    rfl
  have hperm : (acts.map Activation.name).eraseDups.Perm (acts.map Activation.name).dedup :=
    (List.perm_ext_iff_of_nodup (nodup_eraseDups _) (List.nodup_dedup _)).2 fun name => by
      rw [List.mem_eraseDups, List.mem_dedup]
  rw [hcounts, (hperm.map _).sum_eq, List.sum_map_count_dedup_eq_length,
    List.length_map]

end Reports

end Activation

/-! ## Evaluations -/

namespace Trace

/-- Without eviction, a recording adds an entry and leaves the others. -/
theorem exists_toList_perform_eq {t : Trace} (r : Recording) (h : (t.perform r).evicted = 0) :
    t.evicted = 0 ∧ ∃ e : TraceEntry, e.event = r.event ∧ e.node = r.node ∧
      (t.perform r).toList = t.toList ++ [e] := by
  cases r with
  | exit n result =>
    obtain ⟨hev, e, hevent, hnode, -, -, -, hlist⟩ := toList_record h
    exact ⟨hev, e, hevent, hnode, hlist⟩
  | _ =>
    obtain ⟨hev, e, hevent, hnode, -, -, -, hlist⟩ := toList_record h
    exact ⟨hev, e, hevent, hnode, hlist⟩

/-- A recording of anything else is no activation. -/
theorem activations_perform {t : Trace} (r : Recording) (hr : r.event.kind ≠ .activation)
    (h : (t.perform r).evicted = 0) :
    t.evicted = 0 ∧ (t.perform r).activations = t.activations := by
  obtain ⟨hev, e, hevent, -, hlist⟩ := exists_toList_perform_eq r h
  refine ⟨hev, ?_⟩
  have hnone : e.activation? = none := by
    rw [TraceEntry.activation?, hevent]
    cases hcase : r.event <;> simp_all [TraceEvent.kind]
  rw [activations, hlist, List.filterMap_append, List.filterMap_cons, hnone]
  simp [activations]

end Trace

namespace Eval

/-- The activations that a trace holds are those that were counted, of all rules and of each one. -/
structure Ledger (total : Nat) (count : NodeId → Nat) (acts : List Activation) : Prop where
  total : total = acts.length
  count : ∀ id, count id = acts.countP (·.node = id)
  counted : Activation.Counted acts

theorem ledger_nil : Ledger 0 (fun _ => 0) [] where
  total := rfl
  count _ := rfl
  counted front a back h := absurd h (by simp)

/-- A rule is activated once more. -/
theorem Ledger.activate {total : Nat} {m : Marks} {acts : List Activation}
    (h : Ledger total m.count acts) (n : NodeId) (name : String) :
    Ledger (total + 1) (m.activate n).count (acts ++ [⟨n, name, (m.activate n).count n⟩]) where
  total := by simp [h.total]
  count id := by
    rw [Marks.count_activate, List.countP_append, List.countP_singleton, ← h.count]
    by_cases hid : n = id <;> simp [hid]
  counted := h.counted.concat (by rw [Marks.count_activate, if_pos rfl, h.count])

variable {σ : Type} {ctx : EvalContext σ} {scope : Node → Prop}

/-- As long as no entry was dropped, the trace holds all activations. -/
theorem ledger_keptByRecordings (htraces : ctx.settings.traces = true) :
    KeptByRecordings ctx scope fun t total count =>
      t.evicted = 0 → Ledger total count t.activations where
  plain := by
    intro t total count ht r hr hev
    have hkind : r.event.kind ≠ .activation := fun h => by
      rw [h] at hr
      cases hr
    obtain ⟨hev, hacts⟩ := Trace.activations_perform r hkind hev
    rw [hacts]
    exact ht hev
  decide := by
    intro t total count ht n c yes no hn hk value hev
    obtain ⟨hev, hacts⟩ := Trace.activations_perform (.decision n (.ofBool value.isTruthy))
      (by rintro ⟨⟩) hev
    obtain ⟨hev, hacts'⟩ := Trace.activations_perform (.condition c value) (by rintro ⟨⟩) hev
    have hsame := hacts.trans hacts'
    rw [show (Trace.decision _ n _).activations = _ from hsame]
    exact ht hev
  activate := by
    intro t total m ht n head body hn hk _ hev
    obtain ⟨hev, e, hevent, hnode, hlist⟩ := Trace.exists_toList_perform_eq
      (.activation n head.name ((m.activate n.id).count n.id)) hev
    have hact : e.activation? = some ⟨n.id, head.name, (m.activate n.id).count n.id⟩ := by
      rw [TraceEntry.activation?, hevent, hnode]
      rfl
    have hacts : (t.activation n head.name ((m.activate n.id).count n.id)).activations =
        t.activations ++ [⟨n.id, head.name, (m.activate n.id).count n.id⟩] := by
      rw [Trace.activations, show (t.activation n head.name _).toList = _ from hlist,
        List.filterMap_append, List.filterMap_cons, hact]
      rfl
    rw [hacts]
    exact (ht hev).activate n.id head.name
  silent _ _ hno := by
    rw [htraces] at hno
    cases hno

end Eval

/-! ## Answers -/

namespace Explanation

/-- The line on a rule: its name, and how often it was activated. -/
def ruleLine (rule : String × Nat) : String :=
  "  - rule " ++ rule.1 ++ " (" ++ toString rule.2 ++ " activation" ++
    (if rule.2 = 1 then "" else "s") ++ ")"

/-- The part of an answer that is about rules. -/
def ruleSection (rules : List (String × Nat)) : List String :=
  titled "Rule activations:" "none" (rules.map ruleLine)

/-- The activations that a trace holds are reported. -/
theorem ruleCounts_eq {trace : Trace}
    (h : ∀ entry ∈ trace.toList, entry.kind = .activation → entry.node.isSome) :
    ruleCounts trace = Activation.report trace.activations := by
  rw [Activation.report, Trace.activations, List.foldl_filterMap, ruleCounts]
  refine List.foldl_ext _ _ _ fun counts entry hentry => ?_
  cases hevent : entry.event with
  | activation name count =>
    obtain ⟨id, hid⟩ := Option.isSome_iff_exists.1
      (h entry hentry (by rw [TraceEntry.kind, hevent]; rfl))
    simp [TraceEntry.activation?, hevent, hid]
  | _ => simp [TraceEntry.activation?, hevent]

/-- Each question but one about an action that no consequence carries is answered, and the answer
has a part that is about rules. -/
theorem exists_explain_eq (root : Node) (trace : Trace) {question : Question}
    (h : ∀ action, question = .whyNot action → (root.findConsequence? action).isSome) :
    ∃ front back, explain root trace question =
      .ok (String.join ((front ++ ruleSection (ruleCounts trace) ++ back).map (· ++ "\n"))) := by
  have haccount (index : NodeIndex) : ∃ front,
      account index trace = front ++ ruleSection (ruleCounts trace) := ⟨_, rfl⟩
  obtain ⟨front, hfront⟩ := haccount (.ofNode root)
  cases question with
  | why =>
    refine ⟨"Why: evaluation path" :: front, [], ?_⟩
    rw [List.append_nil, List.cons_append, ← hfront]
    rfl
  | whyNot action =>
    obtain ⟨target, htarget⟩ := Option.isSome_iff_exists.1 (h action rfl)
    refine ⟨("Why not: " ++ target.label) :: whyNot (.ofNode root) trace target ++ front,
      omissions (.ofNode root) trace, ?_⟩
    rw [explain, lines_whyNot trace htarget, hfront, List.append_assoc _ front]
    rfl

end Explanation

namespace Evaluator

open Explanation

variable {σ : Type} (e : Evaluator) (host : Host σ) (root : Node) (world : σ)

/-- An activation of an evaluation is one of a rule of the tree. -/
theorem exists_rule_of_mem_activations {a : Activation}
    (h : a ∈ (e.run host root world).evaluator.trace.activations) :
    ∃ n ∈ root.nodes, n.id = a.node ∧ ∃ head body, n.kind = .rule head body ∧
      head.name = a.name := by
  obtain ⟨entry, hentry, hact⟩ := List.mem_filterMap.1 h
  obtain ⟨r, hr, hevent, hnode⟩ := e.exists_due_of_mem_trace host root world hentry
  rw [TraceEntry.activation?, hevent, hnode] at hact
  cases hr with
  | @activation n head body count hn hk =>
    obtain rfl := Option.some.inj hact
    exact ⟨n, hn, rfl, head, body, hk, rfl⟩
  | _ => cases hact

/-- What an answer reports are the activations of the trace. -/
theorem ruleCounts_run : ruleCounts (e.run host root world).evaluator.trace =
    Activation.report (e.run host root world).evaluator.trace.activations := by
  refine ruleCounts_eq fun entry hentry hkind => ?_
  obtain ⟨r, hr, hevent, hnode⟩ := e.exists_due_of_mem_trace host root world hentry
  rw [TraceEntry.kind, hevent] at hkind
  cases hr with
  | activation count hn hk => rw [hnode]; rfl
  | _ => cases hkind

/-- If identities are distinct, activations of one node have one name. -/
theorem name_eq_of_node_eq (hids : (root.nodes.map Node.id).Nodup) {a b : Activation}
    (ha : a ∈ (e.run host root world).evaluator.trace.activations)
    (hb : b ∈ (e.run host root world).evaluator.trace.activations) (hnode : a.node = b.node) :
    a.name = b.name := by
  obtain ⟨n, hn, hid, head, body, hk, hname⟩ := e.exists_rule_of_mem_activations host root world ha
  obtain ⟨m, hm, hid', head', body', hk', hname'⟩ :=
    e.exists_rule_of_mem_activations host root world hb
  obtain rfl := List.inj_on_of_nodup_map hids hn hm (hid.trans (hnode.trans hid'.symm))
  obtain ⟨rfl, -⟩ := Kind.rule.inj (hk.symm.trans hk')
  exact hname.symm.trans hname'

/-- **An explanation lists the rules that were activated.** If a trace is kept and no entry was
dropped, then the trace holds each activation of the evaluation, with the rule that was activated.
Every answer that is found has a part on rules, with their names in the order in which they came up,
each once and with the number that was recorded last under it.

If identities are distinct, every answer is found, and each rule is counted on its own: the number
that is recorded with an activation says how often this very node has been activated. The numbers
add up to the number of activations if no two rules that were activated have one name. -/
theorem activations_answer (htraces : e.settings.traces = true)
    (hev : (e.run host root world).evaluator.trace.evicted = 0) :
    let r := e.run host root world
    let acts := r.evaluator.trace.activations
    let rules := Activation.report acts
    acts.length = r.evaluator.stats.activations ∧
      (∀ a ∈ acts, ∃ n ∈ root.nodes, n.id = a.node ∧ ∃ head body, n.kind = .rule head body ∧
        head.name = a.name) ∧
      (∀ question,
        (∀ action, question = .whyNot action → (root.findConsequence? action).isSome) →
        Ends r.tree r.evaluator.trace question →
        ∃ front back, explain r.tree r.evaluator.trace question =
          .ok (String.join ((front ++ ruleSection rules ++ back).map (· ++ "\n")))) ∧
      rules.map Prod.fst = (acts.map Activation.name).eraseDups ∧
      (∀ name count, (name, count) ∈ rules → ∃ front a back, acts = front ++ a :: back ∧
        a.name = name ∧ (∀ b ∈ back, b.name ≠ name) ∧ count = a.count) ∧
      ((root.nodes.map Node.id).Nodup →
        (∀ question, Ends r.tree r.evaluator.trace question) ∧
        (∀ n ∈ r.tree.nodes, ∀ head body, n.kind = .rule head body →
          head.activations = acts.countP (·.node = n.id)) ∧
        (∀ front a back, acts = front ++ a :: back →
          a.count = front.countP (·.node = a.node) + 1) ∧
        ((∀ a ∈ acts, ∀ b ∈ acts, a.name = b.name → a.node = b.node) →
          (rules.map Prod.snd).sum = r.evaluator.stats.activations)) := by
  intro r acts rules
  obtain ⟨executed, count, hledger, htree⟩ := e.exists_count_run host root world
    (Eval.ledger_keptByRecordings htraces) (by
      rw [Trace.activations, show e.trace.reset.toList = [] from Window.toList_empty]
      exact fun _ => Eval.ledger_nil)
  obtain ⟨htotal, hcount, hcounted⟩ := hledger hev
  have hrules : rules = (acts.map Activation.name).eraseDups.map fun name =>
      (name, Activation.lastCount acts name) := Activation.report_eq acts
  refine ⟨htotal.symm, fun a => e.exists_rule_of_mem_activations host root world, ?_, ?_, ?_,
    fun hids => ⟨?_, ?_, hcounted, fun hnames => ?_⟩⟩
  · intro question hquestion _
    have hcounts : ruleCounts r.evaluator.trace = rules := e.ruleCounts_run host root world
    rw [e.explain_tree_run host root world, ← hcounts]
    exact exists_explain_eq root _ hquestion
  · rw [hrules, List.map_map]
    exact List.map_id _
  · intro name number hmem
    rw [hrules, List.mem_map] at hmem
    obtain ⟨name, hname, hpair⟩ := hmem
    obtain ⟨rfl, rfl⟩ := Prod.mk.inj hpair
    exact Activation.exists_of_lastCount (List.mem_eraseDups.1 hname)
  · refine ends_of_nodup ?_
    rw [htree, Node.nodes_withMarks, List.map_map]
    simpa only [Function.comp_def, Node.id_withMarks] using hids
  · intro n hn head body hk
    rw [htree, Node.nodes_withMarks] at hn
    obtain ⟨m, hm, rfl⟩ := List.mem_map.1 hn
    have hrule := m.rule?_withMarks executed count
    obtain ⟨unmarked, -, rfl⟩ := Option.map_eq_some_iff.1 (hrule.symm.trans (by rw [hk]; rfl))
    rw [Node.id_withMarks]
    exact hcount m.id
  · have hsame : ∀ a ∈ acts, ∀ b ∈ acts, a.node = b.node ↔ a.name = b.name := fun a ha b hb =>
      ⟨e.name_eq_of_node_eq host root world hids ha hb, hnames a ha b hb⟩
    exact (Activation.sum_report hcounted hsame).trans htotal.symm

/-- A rule that is also activated by another one, and calls of both. -/
def interleaved : Node :=
  .linked ⟨1⟩ .block
    [.linked ⟨2⟩ (.rule { name := "a" } (some (.linked ⟨3⟩ (.literal (.bool true)) []))) [],
      .linked ⟨4⟩ (.rule { name := "b" } (some (.linked ⟨5⟩ (.ruleCall "a") []))) [],
      .linked ⟨6⟩ (.ruleCall "a") [], .linked ⟨7⟩ (.ruleCall "b") []]

/-- Four activations of the first rule are interleaved with two of the second one. -/
theorem activations_answer_interleaved :
    let e := ofSettings {}
    let r := e.run Environment.host interleaved {}
    let acts := r.evaluator.trace.activations
    e.settings.traces = true ∧ r.evaluator.trace.evicted = 0 ∧
      (interleaved.nodes.map Node.id).Nodup ∧
      acts.map Activation.name = ["a", "b", "a", "a", "b", "a"] ∧
      (∀ a ∈ acts, ∀ b ∈ acts, a.name = b.name → a.node = b.node) ∧
      Activation.report acts = [("a", 4), ("b", 2)] ∧
      (∃ front back, explain r.tree r.evaluator.trace .why =
        .ok (String.join ((front ++ ruleSection (Activation.report acts) ++ back).map
          (· ++ "\n")))) ∧
      ((Activation.report acts).map Prod.snd).sum = r.evaluator.stats.activations := by
  intro e r acts
  have hev : r.evaluator.trace.evicted = 0 := by decide +kernel
  have hids : (interleaved.nodes.map Node.id).Nodup := by decide +kernel
  have hnames : ∀ a ∈ acts, ∀ b ∈ acts, a.name = b.name → a.node = b.node := by decide +kernel
  obtain ⟨-, -, hanswer, -, -, hdistinct⟩ :=
    activations_answer e Environment.host interleaved {} rfl hev
  obtain ⟨hends, -, -, hsum⟩ := hdistinct hids
  exact ⟨rfl, hev, hids, by decide +kernel, hnames, by decide +kernel,
    hanswer .why (by rintro _ ⟨⟩) (hends .why), hsum hnames⟩

/-- Two rules with one name. -/
def namesakes : Node :=
  let rule (id : Nat) : Node :=
    .linked ⟨id⟩ (.rule { name := "a" } (some (.linked ⟨id + 1⟩ (.literal (.bool true)) []))) []
  .linked ⟨1⟩ .block [rule 2, rule 4]

/-- Both rules were activated, and one activation is reported. -/
theorem sum_report_namesakes :
    let e := ofSettings {}
    let r := e.run Environment.host namesakes {}
    (namesakes.nodes.map Node.id).Nodup ∧ e.settings.traces = true ∧
      r.evaluator.trace.evicted = 0 ∧ ruleCounts r.evaluator.trace = [("a", 1)] ∧
      r.evaluator.stats.activations = 2 ∧
      ((ruleCounts r.evaluator.trace).map Prod.snd).sum ≠ r.evaluator.stats.activations := by
  intro e r
  have hcounts : ruleCounts r.evaluator.trace = [("a", 1)] := by decide +kernel
  have htotal : r.evaluator.stats.activations = 2 := by decide +kernel
  refine ⟨by decide +kernel, rfl, by decide +kernel, hcounts, htotal, ?_⟩
  rw [hcounts, htotal]
  decide

end Evaluator

end Rulebook
