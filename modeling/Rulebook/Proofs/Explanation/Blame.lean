import Rulebook.Proofs.Evaluation.History
import Rulebook.Proofs.Evaluation.Pairing
import Rulebook.Proofs.Evaluation.Transcript
import Rulebook.Proofs.Explanation.WhyNot
import Rulebook.Proofs.Node.Ownership

/-!
# Decisions that are blamed

Asked why an action was not performed, an explanation names the decisions on the way to it that
took the other branch, what they took and what was needed, and the value of their conditions. What
such a line says is true of the run, also if the trace has evicted entries.

## Main definitions

* `Explanation.blame`: the line that blames a decision
* `Explanation.observed`: the value of a condition that the trace remembers

## Main results

* `Explanation.blame_inj`: the line tells what it was made of
* `Explanation.exists_of_blame_mem_whyNot`: the decisions that are blamed
* `Evaluator.blame_mem_answer`: what is said of them is true
-/

namespace Rulebook

namespace Explanation

/-! ## Lines -/

section Lines

variable {label label' : String} {taken taken' needed needed' : Branch}
  {result result' : Option Bool}

/-- The remark on the value of a condition, if that is remembered. -/
def remark (result : Option Bool) : String :=
  result.elim "" fun result => " (condition was " ++ toString result ++ ")"

/-- The line that blames a decision: which branch it took, which one was needed, and the value of
its condition. -/
def blame (label : String) (taken needed : Branch) (result : Option Bool) : String :=
  "  - " ++ label ++ " took " ++ taken.name ++ ", but " ++ needed.name ++ " was needed" ++
    remark result

/-- The last characters of a line, from behind. They tell the sorts of lines apart. -/
def ending (line : String) : List Char :=
  line.toList.reverse.take 4

theorem ending_append {front back : String} (h : 4 ≤ back.toList.length) :
    ending (front ++ back) = ending back := by
  rw [ending, String.toList_append, List.reverse_append, List.take_append_of_le_length, ending]
  rwa [List.length_reverse]

/-- A line of blame ends with what was needed, or with the value of a condition. -/
theorem ending_blame (label : String) (taken needed : Branch) (result : Option Bool) :
    ending (blame label taken needed result) =
      result.elim ['d', 'e', 'd', 'e'] fun result =>
        if result then [')', 'e', 'u', 'r'] else [')', 'e', 's', 'l'] := by
  cases result with
  | none =>
    rw [blame, remark, Option.elim_none, String.append_empty, ending_append (by decide)]
    decide
  | some result =>
    cases result
    · rw [blame, ending_append (by decide)]
      decide
    · rw [blame, ending_append (by decide)]
      decide

/-- All branches have names of one length, and different ones. -/
theorem length_name (b : Branch) : b.name.toList.length = 4 := by
  cases b <;> decide

theorem name_inj {b b' : Branch} (h : b.name.toList = b'.name.toList) : b = b' := by
  revert h
  cases b <;> cases b' <;> decide

/-- A line of blame tells what it was made of, whatever stands in the label. -/
theorem blame_inj (h : blame label taken needed result = blame label' taken' needed' result') :
    label = label' ∧ taken = taken' ∧ needed = needed' ∧ result = result' := by
  have hending := congrArg ending h
  rw [ending_blame, ending_blame] at hending
  obtain rfl : result = result' := by
    rcases result with _ | _ | _ <;> rcases result' with _ | _ | _ <;> simp at hending ⊢
  -- From behind, each part of the line is as long in one as in the other.
  have hchars := congrArg String.toList h
  simp only [blame, String.toList_append] at hchars
  have hneeded := List.append_cancel_right (List.append_cancel_right hchars)
  obtain ⟨htaken, hneeded⟩ := List.append_inj' hneeded (by rw [length_name, length_name])
  obtain ⟨hlabel, htaken⟩ := List.append_inj' (List.append_cancel_right htaken)
    (by rw [length_name, length_name])
  have hlabel := List.append_cancel_left (List.append_cancel_right hlabel)
  exact ⟨String.toList_inj.1 hlabel, name_inj htaken, name_inj hneeded, rfl⟩

/-- A line that does not end like one of blame. -/
theorem ne_blame {line : String}
    (h : ending line ∉ [['d', 'e', 'd', 'e'], [')', 'e', 'u', 'r'], [')', 'e', 's', 'l']]) :
    line ≠ blame label taken needed result := by
  rintro rfl
  rw [ending_blame] at h
  rcases result with _ | _ | _ <;> simp at h

end Lines

/-! ## Who is blamed -/

section Blamed

/-- Elements that are paired with the next one stand in front of it. -/
theorem exists_of_mem_zip_tail {α : Type} {l : List α} {a b : α} (h : (a, b) ∈ l.zip l.tail) :
    ∃ front back, l = front ++ a :: b :: back := by
  obtain ⟨i, hi, hget⟩ := List.mem_iff_getElem.1 h
  rw [List.getElem_zip, Prod.mk.injEq, List.getElem_tail] at hget
  obtain ⟨rfl, rfl⟩ := hget
  have hlength : i + 1 < l.length := by
    rw [List.length_zip, List.length_tail] at hi
    omega
  refine ⟨l.take i, l.drop (i + 2), ?_⟩
  rw [← List.drop_eq_getElem_cons hlength, ← List.drop_eq_getElem_cons (by omega),
    List.take_append_drop]

variable {index : NodeIndex} {trace : Trace} {label : String} {taken needed : Branch}
  {result : Option Bool}

/-- The value of a condition that the trace remembers. -/
def observed (trace : Trace) (condition : Option Node) : Option Bool :=
  (condition.bind fun c => trace.lastOfKind? c.id .condition).bind fun e =>
    match e.event with
    | .condition result => some result
    | _ => none

theorem conditionRemark_eq_remark (trace : Trace) (condition : Option Node) :
    conditionRemark trace condition = remark (observed trace condition) := by
  rw [conditionRemark, observed]
  cases condition.bind fun c => trace.lastOfKind? c.id .condition with
  | none => rfl
  | some e => cases he : e.event <;> simp [he, remark]

/-- A decision that is blamed took another branch than the one with the child. -/
theorem of_decisionBlocker?_eq_blame {d : Node} {condition : Option Node} {child : NodeId}
    (h : decisionBlocker? trace d condition child = some (blame label taken needed result)) :
    d.label = label ∧ branchTo? d child = some needed ∧ taken ≠ needed ∧
      (∃ e, trace.lastOfKind? d.id .decision = some e ∧ e.event = .decision taken) ∧
      result = observed trace condition := by
  unfold decisionBlocker? at h
  split at h
  · cases h
  · next needed' hneeded =>
    split at h
    · next e he =>
      split at h
      · next taken' htaken =>
        split at h
        · cases h
        · next hne =>
          rw [conditionRemark_eq_remark] at h
          obtain ⟨rfl, rfl, rfl, rfl⟩ := blame_inj (Option.some.inj h)
          exact ⟨rfl, hneeded, hne, ⟨e, he, htaken⟩, rfl⟩
      · cases h
    · exact absurd (Option.some.inj h) (ne_blame (by rw [ending_append (by decide)]; decide))

/-- Only decisions are blamed. -/
theorem of_blocker?_eq_blame {d : Node} {child : NodeId}
    (h : blocker? trace d child = some (blame label taken needed result)) :
    ∃ condition yes no, d.kind = .decision condition yes no ∧
      decisionBlocker? trace d condition child = some (blame label taken needed result) := by
  unfold blocker? at h
  split at h
  · next condition yes no hk => exact ⟨condition, yes, no, hk, h⟩
  · next head body hk =>
    split at h
    · refine absurd (Option.some.inj h) (ne_blame ?_)
      cases head.isActive <;> rw [ending_append (by decide)] <;> decide
    · cases h
  · split at h
    · exact absurd (Option.some.inj h) (ne_blame (by rw [ending_append (by decide)]; decide))
    · cases h
  · split at h
    · exact absurd (Option.some.inj h) (ne_blame (by rw [ending_append (by decide)]; decide))
    · cases h
  · cases h

/-- A line of blame is about two nodes on the path, an owner and its child. -/
theorem exists_of_blame_mem_whyNot {target : Node}
    (h : blame label taken needed result ∈ whyNot index trace target) :
    ∃ path front d child back, index.path? target.id = some path ∧
      path = front ++ d :: child :: back ∧
      blocker? trace d child.id = some (blame label taken needed result) := by
  have hnot {line : String}
      (hline : ending line ∉ [['d', 'e', 'd', 'e'], [')', 'e', 'u', 'r'], [')', 'e', 's', 'l']]) :
      blame label taken needed result ∉ [line] :=
    fun hmem => ne_blame hline (List.mem_singleton.1 hmem).symm
  unfold whyNot at h
  split at h
  · exact absurd h (hnot (by decide))
  · split at h
    · exact absurd h (hnot (by decide))
    · next path hpath =>
      have hblockers : blame label taken needed result ∈ blockers trace path := by
        split at h
        · split at h
          · exact absurd h (hnot (by decide))
          · exact absurd h (hnot (by decide))
        · exact h
      obtain ⟨⟨d, child⟩, hpair, hblocker⟩ := List.mem_filterMap.1 hblockers
      obtain ⟨front, back, hsplit⟩ := exists_of_mem_zip_tail hpair
      exact ⟨path, front, d, child, back, hpath, hsplit, hblocker⟩

/-- What kept a node of the path from being evaluated is told, if the node has no outcome. -/
theorem mem_whyNot {target : Node} {path : List Node} {line : String}
    (hnone : trace.lastOfKind? target.id .consequence = none)
    (hpath : index.path? target.id = some path) (hline : line ∈ blockers trace path) :
    line ∈ whyNot index trace target := by
  rw [whyNot, hnone, if_neg (by simp), hpath]
  dsimp only
  split
  · next h => rw [h] at hline; cases hline
  · exact hline

/-- The branch of a decision that leads to a child. -/
theorem exists_of_branchTo?_eq_some {d : Node} {child : NodeId} {branch : Branch}
    (h : branchTo? d child = some branch) :
    ∃ below ∈ d.childNodes, branchNode? d branch = some below ∧ below.id = child := by
  have htest := List.find?_some (show List.find? _ [Branch.yes, Branch.no] = some branch from h)
  obtain ⟨below, hbelow, hid⟩ := (Option.any_eq_true _ _).1 htest
  refine ⟨below, ?_, hbelow, beq_iff_eq.1 hid⟩
  unfold branchNode? at hbelow
  split at hbelow
  · next hk => simp [Node.childNodes, hk, Kind.operands, Kind.slots, hbelow]
  · next hk => simp [Node.childNodes, hk, Kind.operands, Kind.slots, hbelow]
  · cases hbelow

end Blamed

end Explanation

/-! ## Runs -/

namespace Evaluator

open Explanation

variable {σ : Type} (e : Evaluator) (host : Host σ) (root : Node) (world : σ)

/-- The value of its condition that an explanation remembers of a decision led to the branch that
the decision took last. -/
theorem taken_eq_of_observed (hids : (root.nodes.map Node.id).Nodup) {d : Node}
    {condition yes no : Option Node} (hd : d ∈ root.nodes)
    (hk : d.kind = .decision condition yes no) {entry : TraceEntry} {taken : Branch}
    (hentry : (e.run host root world).evaluator.trace.lastOfKind? d.id .decision = some entry)
    (htaken : entry.event = .decision taken) {result : Bool}
    (hresult : some result = observed (e.run host root world).evaluator.trace condition) :
    taken = .ofBool result := by
  have hlinked := e.run_linked host root world
  obtain ⟨a, ha, hevent⟩ := Option.bind_eq_some_iff.1 hresult.symm
  obtain ⟨c, rfl, ha⟩ := Option.bind_eq_some_iff.1 ha
  rw [Option.bind_some, hlinked.lastOfKind?_eq] at ha
  rw [hlinked.lastOfKind?_eq] at hentry
  refine (e.run_paired host root world).branch_eq hids hd hk ha hentry ?_ htaken
  split at hevent
  · next heq => rw [heq, Option.some.inj hevent]
  · cases hevent

/-- **Lines of blame are true.** An explanation of why an action was not performed is about one
node. Each line of it that blames a decision, of whatever run and whatever entries are left of it,
is about a decision on the path from the root to that node. The node is in the branch that was
needed. The branch that was taken is another one, and it is the one that was recorded last in the
run; and if the line remembers the value of the condition, then this value led to that branch. -/
theorem blame_mem_answer (hids : (root.nodes.map Node.id).Nodup) {action : String}
    {answer : List String}
    (hanswer : lines root (e.run host root world).evaluator.trace (.whyNot action) = .ok answer) :
    let r := e.run host root world
    explain r.tree r.evaluator.trace (.whyNot action) =
        .ok (String.join (answer.map (· ++ "\n"))) ∧
      ∃ target, root.findConsequence? action = some target ∧
        answer = ("Why not: " ++ target.label) ::
            whyNot (.ofNode root) r.evaluator.trace target ++
          account (.ofNode root) r.evaluator.trace ++ omissions (.ofNode root) r.evaluator.trace ∧
        ∀ label taken needed result,
          blame label taken needed result ∈ whyNot (.ofNode root) r.evaluator.trace target →
          ∃ path d below entry, root.IsPath target path ∧ d ∈ path ∧ d.label = label ∧
            branchNode? d needed = some below ∧ target ∈ below.nodes ∧ taken ≠ needed ∧
            Trace.lastWhere (Trace.isOfKind d.id .decision) (e.transcript host root world) =
              some entry ∧
            entry.event = .decision taken ∧
            ∀ observed, result = some observed → (observed = true ↔ taken = .yes) := by
  intro r
  obtain ⟨target, htarget, hlines⟩ := exists_of_lines_whyNot r.evaluator.trace hanswer
  refine ⟨?_, target, htarget, hlines, ?_⟩
  · rw [e.explain_tree_run host root world, explain, hanswer]
    rfl
  intro label taken needed result hmem
  have hmemTarget := (Node.exists_of_findConsequence? htarget).1
  obtain ⟨path, front, d, child, back, hpath, rfl, hblocker⟩ := exists_of_blame_mem_whyNot hmem
  obtain ⟨condition, yes, no, hk, hblocker⟩ := of_blocker?_eq_blame hblocker
  obtain ⟨hlabel, hneeded, hne, ⟨held, hheld, htaken⟩, hresult⟩ :=
    of_decisionBlocker?_eq_blame hblocker
  have hisPath := NodeIndex.isPath_of_path? hids hmemTarget hpath
  have hd : d ∈ root.nodes := hisPath.subset d (by simp)
  have hchild : child ∈ root.nodes := hisPath.subset child (by simp)
  -- The child on the path is the branch itself.
  obtain ⟨below, hbelow, hbranch, hid⟩ := exists_of_branchTo?_eq_some hneeded
  obtain rfl : below = child := List.inj_on_of_nodup_map hids
    (Node.mem_nodes_of_mem_childNodes_of_mem hd hbelow) hchild hid
  have hinside : target ∈ below.nodes := hisPath.mem_nodes (List.append_cons front d _)
  have hlast := hheld
  rw [(e.run_linked host root world).lastOfKind?_eq] at hlast
  obtain ⟨entry, hentry, htimeless⟩ := e.lastWhere_transcript host root world (fun _ => rfl) hlast
  have hevent : entry.timeless.event = held.timeless.event := by rw [htimeless]
  refine ⟨_, d, below, entry, hisPath, by simp, hlabel, hbranch, hinside, hne, hentry,
    hevent.trans htaken, ?_⟩
  rintro value rfl
  rw [e.taken_eq_of_observed host root world hids hd hk hheld htaken hresult]
  cases value <;> simp [Branch.ofBool]

/-- A decision took its second branch, and the first one was needed. The entries of the decision and
of its condition are among the six that are left of ten. -/
theorem blame_mem_answer_sameAction :
    let e := ofSettings { traceLimit := some 6 }
    let r := e.run Environment.host sameAction {}
    (sameAction.nodes.map Node.id).Nodup ∧ r.evaluator.trace.evicted = 4 ∧
      ∃ answer, lines sameAction r.evaluator.trace (.whyNot "win") = .ok answer ∧
        explain r.tree r.evaluator.trace (.whyNot "win") =
          .ok (String.join (answer.map (· ++ "\n"))) ∧
        ∃ target, sameAction.findConsequence? "win" = some target ∧
          blame "if false" .no .yes (some false) ∈
            whyNot (.ofNode sameAction) r.evaluator.trace target ∧
          ∃ path d below entry, sameAction.IsPath target path ∧ d ∈ path ∧ d.label = "if false" ∧
            branchNode? d .yes = some below ∧ target ∈ below.nodes ∧ Branch.no ≠ Branch.yes ∧
            Trace.lastWhere (Trace.isOfKind d.id .decision)
              (e.transcript Environment.host sameAction {}) = some entry ∧
            entry.event = .decision .no := by
  intro e r
  have hids : (sameAction.nodes.map Node.id).Nodup := by decide +kernel
  have hev : r.evaluator.trace.evicted = 4 := by decide +kernel
  obtain ⟨win, hwin⟩ : ∃ win, sameAction.findConsequence? "win" = some win :=
    Option.isSome_iff_exists.1 (by decide +kernel)
  have hanswer := lines_whyNot r.evaluator.trace hwin
  obtain ⟨htext, target, htarget, -, hblame⟩ :=
    blame_mem_answer e Environment.host sameAction {} hids hanswer
  -- The target is the branch that was needed, one step below the root.
  have hfound : (sameAction.findConsequence? "win").all fun target =>
      sameAction.childNodes.any (·.id == target.id) &&
        (r.evaluator.trace.lastOfKind? target.id .consequence).isNone &&
        (blockers r.evaluator.trace [sameAction, target]).contains
          (blame "if false" .no .yes (some false)) := by
    decide +kernel
  rw [htarget, Option.all_some, Bool.and_eq_true, Bool.and_eq_true] at hfound
  obtain ⟨⟨hchild, hnone⟩, hblocked⟩ := hfound
  obtain ⟨child, howned, hid⟩ := List.any_eq_true.1 hchild
  have htargetMem := (Node.exists_of_findConsequence? htarget).1
  obtain rfl : child = target := List.inj_on_of_nodup_map hids
    (Node.mem_nodes_of_mem_childNodes_of_mem sameAction.mem_nodes_self howned) htargetMem
    (beq_iff_eq.1 hid)
  have hway : sameAction.IsPath child [sameAction, child] :=
    ⟨rfl, rfl, .cons_cons howned (.singleton child)⟩
  have hmem := mem_whyNot (Option.isNone_iff_eq_none.1 hnone)
    ((NodeIndex.path?_ofNode_eq_some_iff hids).2 ⟨child, htargetMem, rfl, hway⟩)
    (List.contains_iff_mem.1 hblocked)
  obtain ⟨path, d, below, entry, hpath, hd, hlabel, hbranch, hin, hne, hentry, hevent, -⟩ :=
    hblame _ _ _ _ hmem
  exact ⟨hids, hev, _, hanswer, htext, child, htarget, hmem, path, d, below, entry, hpath, hd,
    hlabel, hbranch, hin, hne, hentry, hevent⟩

end Evaluator

end Rulebook
