import Rulebook.Explanation
import Rulebook.Proofs.Node.Index
import Rulebook.Proofs.Node.Unmarked
import Rulebook.Proofs.Trace.Renamed

/-!
# Explanations do not show identities

An explanation reads the tree for texts, owners and branches, and the trace for all that happened.
It goes from one to the other by the identities of nodes, but they are not seen in it. So a tree
under other identities has the same explanations, from a trace that is about that tree.

## Main definitions

* `NodeIndex.Renamed`: an index has the nodes and owners of another one, under other identities

## Main results

* `NodeIndex.renamed_ofNode`: the index of a tree under other identities
* `explain_renamed`: the explanations of a tree under other identities
* `explain_withMarks`: a marked tree has the explanations of the tree
-/

namespace Rulebook

variable {ρ : NodeId → NodeId}

/-! ## Indexes -/

namespace NodeIndex

/-- An index has the nodes and the owners of another one, under other identities. -/
structure Renamed (ρ : NodeId → NodeId) (index index' : NodeIndex) : Prop where
  nodes : ∀ id, Option.Rel (Node.Renamed ρ) (index.get? id) (index'.get? (ρ id))
  owners : ∀ id, index'.owner? (ρ id) = (index.owner? id).map ρ

variable {index index' : NodeIndex}

/-- Entering an owner for corresponding children. -/
theorem getElem?_foldl_insert (hρ : Function.Injective ρ) (owner : NodeId) {ns ms : List Node}
    (h : List.Forall₂ (Node.Renamed ρ) ns ms) {owners owners' : Std.TreeMap Nat NodeId}
    (howners : ∀ id : NodeId, owners'[(ρ id).number]? = owners[id.number]?.map ρ) (id : NodeId) :
    (ms.foldl (fun owners c => owners.insert c.id.number (ρ owner)) owners')[(ρ id).number]? =
      (ns.foldl (fun owners c => owners.insert c.id.number owner) owners)[id.number]?.map ρ := by
  induction h generalizing owners owners' with
  | nil => exact howners id
  | cons hcd _ ih =>
    refine ih fun id => ?_
    simp only [Std.TreeMap.getElem?_insert, hcd.id_eq, Nat.compare_eq_eq, NodeId.number_inj,
      hρ.eq_iff, howners]
    split <;> rfl

theorem Renamed.enter (hρ : Function.Injective ρ) (h : index.Renamed ρ index') {n m : Node}
    (hnm : n.Renamed ρ m) : (index.enter n).Renamed ρ (index'.enter m) where
  nodes id := by
    have hid := h.nodes id
    simp only [get?, NodeIndex.enter, Std.TreeMap.getElem?_insert, hnm.id_eq, Nat.compare_eq_eq,
      NodeId.number_inj, hρ.eq_iff] at hid ⊢
    split
    · exact .some hnm
    · exact hid
  owners id := by
    rw [owner?, owner?, NodeIndex.enter, NodeIndex.enter, hnm.id_eq]
    exact getElem?_foldl_insert hρ n.id hnm.childNodes h.owners id

/-- Indexes of corresponding trees enter corresponding nodes, one after the other. -/
theorem Renamed.enterAll (hρ : Function.Injective ρ) (h : index.Renamed ρ index')
    {pending pending' : List Node} (hpending : List.Forall₂ (Node.Renamed ρ) pending pending') :
    (index.enterAll pending).Renamed ρ (index'.enterAll pending') := by
  fun_induction NodeIndex.enterAll index pending generalizing index' pending' with
  | case1 index =>
    cases hpending
    rwa [NodeIndex.enterAll]
  | case2 index n pending ih =>
    cases hpending with
    | cons hnm hpending =>
      rw [NodeIndex.enterAll]
      exact ih (h.enter hρ hnm) (List.rel_append (List.rel_reverse hnm.childNodes) hpending)

/-- The index of a tree under other identities. -/
theorem renamed_ofNode (hρ : Function.Injective ρ) {root root' : Node}
    (h : root.Renamed ρ root') : (ofNode root).Renamed ρ (ofNode root') := by
  refine Renamed.enterAll hρ ⟨fun id => ?_, fun id => ?_⟩ (.cons h .nil)
  · simp only [get?, Std.TreeMap.getElem?_emptyc]
    exact .none
  · simp [owner?]

section Climbs

variable (h : index.Renamed ρ index') {id : NodeId} {below below' : List Node}
include h

theorem Climbs.renamed {path : Option (List Node)} (hclimbs : Climbs index id below path)
    (hbelow : List.Forall₂ (Node.Renamed ρ) below below') :
    ∃ path', Climbs index' (ρ id) below' path' ∧
      Option.Rel (List.Forall₂ (Node.Renamed ρ)) path path' := by
  induction hclimbs generalizing below' with
  | @missing id below hn =>
    have hnode := h.nodes id
    rw [hn] at hnode
    generalize hm : index'.get? (ρ id) = m at hnode
    cases hnode
    exact ⟨none, .missing hm, .none⟩
  | @top id below n hn howner =>
    have hnode := h.nodes id
    rw [hn] at hnode
    generalize hm : index'.get? (ρ id) = m at hnode
    cases hnode with
    | some hnm =>
      exact ⟨_, .top hm (by rw [h.owners, howner, Option.map_none]), .some (.cons hnm hbelow)⟩
  | @step id owner below n path hn howner _ ih =>
    have hnode := h.nodes id
    rw [hn] at hnode
    generalize hm : index'.get? (ρ id) = m at hnode
    cases hnode with
    | some hnm =>
      obtain ⟨path', hclimbs, hpath⟩ := ih (.cons hnm hbelow)
      exact ⟨path', .step hm (by rw [h.owners, howner, Option.map_some]) hclimbs, hpath⟩

/-- A climb ends if the one from the corresponding node does. -/
theorem Climbs.of_renamed {path' : Option (List Node)} {id' : NodeId}
    (hclimbs : Climbs index' id' below' path') (hid : id' = ρ id) (below : List Node) :
    ∃ path, Climbs index id below path := by
  induction hclimbs generalizing id below with
  | missing hm =>
    subst hid
    have hnode := h.nodes id
    rw [hm] at hnode
    generalize hn : index.get? id = n at hnode
    cases hnode
    exact ⟨none, .missing hn⟩
  | top hm howner =>
    subst hid
    have hnode := h.nodes id
    rw [hm] at hnode
    rw [h.owners, Option.map_eq_none_iff] at howner
    generalize hn : index.get? id = n at hnode
    cases hnode
    exact ⟨_, .top hn howner⟩
  | step hm howner _ ih =>
    subst hid
    have hnode := h.nodes id
    rw [hm] at hnode
    rw [h.owners, Option.map_eq_some_iff] at howner
    obtain ⟨owner, howner, rfl⟩ := howner
    generalize hn : index.get? id = n at hnode
    cases hnode with
    | @some n m hnm =>
      obtain ⟨path, hclimbs⟩ := ih rfl (n :: below)
      exact ⟨path, .step hn howner hclimbs⟩

end Climbs

/-- Climbs from corresponding nodes both end, at paths that correspond to each other, or both go on
for ever. -/
theorem Renamed.climb (h : index.Renamed ρ index') (id : NodeId) :
    Option.Rel (Option.Rel (List.Forall₂ (Node.Renamed ρ))) (index.climb id [])
      (index'.climb (ρ id) []) := by
  cases hpath : index.climb id [] with
  | some path =>
    obtain ⟨path', hclimbs, hrel⟩ := (climb_eq_some_iff.1 hpath).renamed h .nil
    rw [climb_eq_some_iff.2 hclimbs]
    exact .some hrel
  | none =>
    cases hpath' : index'.climb (ρ id) [] with
    | none => exact .none
    | some path' =>
      obtain ⟨path, hclimbs⟩ := (climb_eq_some_iff.1 hpath').of_renamed h rfl []
      cases hpath.symm.trans (climb_eq_some_iff.2 hclimbs)

theorem Renamed.path? (h : index.Renamed ρ index') (id : NodeId) :
    Option.Rel (List.Forall₂ (Node.Renamed ρ)) (index.path? id) (index'.path? (ρ id)) := by
  have hclimb := h.climb id
  rw [NodeIndex.path?, NodeIndex.path?]
  generalize index.climb id [] = path, index'.climb (ρ id) [] = path' at hclimb
  cases hclimb with
  | none => exact .none
  | some hpath => exact hpath

end NodeIndex

/-! ## Explanations -/

namespace Explanation

section Parts

variable {trace trace' : Trace} {n m : Node}

theorem consequenceTexts_eq (h : n.Renamed ρ m) : consequenceTexts m = consequenceTexts n := by
  have hnodes (n : Node) : consequenceTexts n =
      n.nodes.filterMap fun m => m.kind.consequence?.map fun _ => m.text := by
    rw [consequenceTexts, Node.preorder_eq, ← Node.map_fst_preorderFrom n 1, List.filterMap_map]
    rfl
  rw [hnodes, hnodes]
  refine filterMap_eq_of_forall₂ h.nodes fun {c d} hcd => ?_
  have hconsequence := hcd.consequence?
  rw [hcd.text_eq]
  generalize c.kind.consequence? = a, d.kind.consequence? = b at hconsequence
  cases hconsequence <;> rfl

theorem branchNode?_rel (h : n.Renamed ρ m) (branch : Branch) :
    Option.Rel (Node.Renamed ρ) (branchNode? n branch) (branchNode? m branch) := by
  have hkind := h.kind
  unfold branchNode?
  generalize n.kind = k, m.kind = l at hkind
  cases hkind with
  | decision _ hy hn =>
    cases branch with
    | yes => exact hy
    | no => exact hn
  | _ => exact .none

variable (hρ : Function.Injective ρ)
include hρ

theorem branchTo?_eq (h : n.Renamed ρ m) (child : NodeId) :
    branchTo? m (ρ child) = branchTo? n child := by
  rw [branchTo?, branchTo?]
  congr 1
  funext branch
  have hbranch := branchNode?_rel h branch
  generalize branchNode? n branch = c, branchNode? m branch = d at hbranch
  cases hbranch with
  | none => rfl
  | some hcd => rw [Option.any_some, Option.any_some, hcd.id_eq, hρ.beq_eq]

variable (ht : trace.Renamed ρ trace')
include ht

omit hρ in
theorem conditionRemark_eq {c c' : Option Node} (h : Option.Rel (Node.Renamed ρ) c c') :
    conditionRemark trace' c' = conditionRemark trace c := by
  cases h with
  | none => rfl
  | some h =>
    rw [conditionRemark, conditionRemark, Option.bind_some, Option.bind_some, h.id_eq,
      ht.lastOfKind?_eq, Option.map_map]
    rfl

theorem decisionBlocker?_eq (h : n.Renamed ρ m) {c c' : Option Node}
    (hc : Option.Rel (Node.Renamed ρ) c c') (child : NodeId) :
    decisionBlocker? trace' m c' (ρ child) = decisionBlocker? trace n c child := by
  rw [decisionBlocker?, decisionBlocker?, branchTo?_eq hρ h, h.id_eq, ht.lastOfKind?_eq,
    h.label_eq, conditionRemark_eq ht hc]
  cases branchTo? n child with
  | none => rfl
  | some needed => cases trace.lastOfKind? n.id .decision <;> rfl

theorem blocker?_eq (h : n.Renamed ρ m) (child : NodeId) :
    blocker? trace' m (ρ child) = blocker? trace n child := by
  have hkind := h.kind
  have hisSome (id : NodeId) (kind : TraceKind) :
      (trace'.lastOfKind? (ρ id) kind).isSome = (trace.lastOfKind? id kind).isSome := by
    rw [ht.lastOfKind?_eq, Option.isSome_map]
  have hdecision {c c' : Option Node} (hc : Option.Rel (Node.Renamed ρ) c c') :=
    decisionBlocker?_eq hρ ht h hc child
  unfold blocker?
  simp only [h.id_eq, h.label_eq, ← Option.not_isSome, hisSome]
  generalize n.kind = k, m.kind = l at hkind
  cases hkind with
  | decision hc => exact hdecision hc
  | rule hname hactive => simp only [hname, hactive]
  | _ => rfl

theorem blockers_eq {path path' : List Node} (h : List.Forall₂ (Node.Renamed ρ) path path') :
    blockers trace' path' = blockers trace path := by
  unfold blockers
  induction h with
  | nil => rfl
  | cons hnm hrest ih =>
    cases hrest with
    | nil => rfl
    | cons hcd hrest =>
      simp only [List.tail_cons, List.zip_cons_cons, List.filterMap_cons] at ih ⊢
      rw [hcd.id_eq, blocker?_eq hρ ht hnm, ih]

end Parts

section Answers

variable {index index' : NodeIndex} {trace trace' : Trace}

/-- Entries that lead to the same lines under other identities. -/
theorem filterMap_entries (ht : trace.Renamed ρ trace') {α : Type} {f g : TraceEntry → Option α}
    (hfg : ∀ e : TraceEntry, g (e.rename ρ) = f e) :
    trace'.toList.filterMap g = trace.toList.filterMap f := by
  rw [ht.entries, List.filterMap_map]
  exact congrArg (List.filterMap · _) (funext hfg)

/-- Items are met first in the same places if their keys correspond to each other. -/
theorem firstOfEach_map (hρ : Function.Injective ρ) {α : Type} (met : List NodeId)
    (items : List (NodeId × α)) :
    firstOfEach Prod.fst (met.map ρ) (items.map (Prod.map ρ id)) =
      (firstOfEach Prod.fst met items).map (Prod.map ρ id) := by
  induction items generalizing met with
  | nil => rfl
  | cons item items ih =>
    have hmet : (met.map ρ).contains (ρ item.1) = met.contains item.1 := by
      rw [Bool.eq_iff_iff]
      simp [hρ.eq_iff]
    rw [List.map_cons, firstOfEach, firstOfEach, Prod.map_fst, hmet, ← List.map_cons, ih, ih]
    split <;> rfl

/-- What entries say first about each node corresponds to each other. -/
theorem firstOfEach_entries (hρ : Function.Injective ρ) (ht : trace.Renamed ρ trace') {α : Type}
    {f : TraceEntry → Option (NodeId × α)}
    (hf : ∀ e : TraceEntry, f (e.rename ρ) = (f e).map (Prod.map ρ id)) :
    firstOfEach Prod.fst [] (trace'.toList.filterMap f) =
      (firstOfEach Prod.fst [] (trace.toList.filterMap f)).map (Prod.map ρ id) := by
  rw [filterMap_entries ht hf, ← List.map_filterMap]
  exact firstOfEach_map hρ [] _

theorem labelOf_eq (h : index.Renamed ρ index') (id : Option NodeId) :
    labelOf index' (id.map ρ) = labelOf index id := by
  cases id with
  | none => rfl
  | some id =>
    have hnode := h.nodes id
    rw [labelOf, labelOf, Option.map_some, Option.bind_some, Option.bind_some]
    generalize index.get? id = n, index'.get? (ρ id) = m at hnode
    cases hnode with
    | none => rfl
    | some hnm => exact hnm.label_eq

variable (h : index.Renamed ρ index') (hρ : Function.Injective ρ) (ht : trace.Renamed ρ trace')
include h ht

theorem decisionSteps_eq : decisionSteps index' trace' = decisionSteps index trace := by
  unfold decisionSteps
  dsimp only
  rw [filterMap_entries ht fun e => ?_]
  cases e with
  | mk seq event =>
    cases event with
    | decision branch => exact congrArg (fun s => some (s ++ _ ++ _)) (labelOf_eq h _)
    | _ => rfl

theorem errorReport_eq : errorReport index' trace' = errorReport index trace := by
  unfold errorReport
  rw [filterMap_entries ht fun e => ?_]
  cases e with
  | mk seq event depth time node =>
    cases event with
    | error kind => simp only [TraceEntry.rename, Option.isSome_map, labelOf_eq h]
    | _ => rfl

include hρ

theorem conditionResults_eq : conditionResults index' trace' = conditionResults index trace := by
  unfold conditionResults
  dsimp only
  -- The first entries about each node correspond to each other, and so do the lines about them.
  rw [firstOfEach_entries hρ ht fun e => ?_]
  · rw [List.map_map]
    refine List.map_congr_left fun ⟨node, result, value⟩ _ => ?_
    simp only [Function.comp_apply, Prod.map_apply, id, ← labelOf_eq h (some node),
      Option.map_some]
  · cases e with
    | mk seq event depth time node =>
      cases event with
      | condition result => cases node <;> rfl
      | _ => rfl

theorem alternatives_eq : alternatives index' trace' = alternatives index trace := by
  unfold alternatives
  dsimp only
  rw [firstOfEach_entries hρ ht fun e => ?_]
  · rw [List.filterMap_map]
    refine List.filterMap_congr fun ⟨node, branch⟩ _ => ?_
    have hnode := h.nodes node
    simp only [Function.comp_apply, Prod.map_apply, id]
    generalize index.get? node = n, index'.get? (ρ node) = m at hnode ⊢
    cases hnode with
    | none => rfl
    | @some n m hnm =>
      have hbranch := branchNode?_rel hnm branch.other
      simp only [Option.map_some, hnm.label_eq]
      generalize branchNode? n branch.other = c, branchNode? m branch.other = d at hbranch
      cases hbranch with
      | none => rfl
      | some hcd => simp only [Option.map_some, consequenceTexts_eq hcd]
  · cases e with
    | mk seq event depth time node =>
      cases event with
      | decision branch => cases node <;> rfl
      | _ => rfl

theorem whyNot_eq {target target' : Node} (htarget : target.Renamed ρ target') :
    whyNot index' trace' target' = whyNot index trace target := by
  have hisSome (kind : TraceKind) : (trace'.lastOfKind? target'.id kind).isSome =
      (trace.lastOfKind? target.id kind).isSome := by
    rw [htarget.id_eq, ht.lastOfKind?_eq, Option.isSome_map]
  have hpath := h.path? target.id
  rw [← htarget.id_eq] at hpath
  unfold whyNot
  simp only [hisSome]
  generalize index.path? target.id = path, index'.path? target'.id = path' at hpath
  cases hpath with
  | none => rfl
  | some hpath => simp only [blockers_eq hρ ht hpath]

theorem account_eq : account index' trace' = account index trace := by
  have hconsequences : consequenceResults trace' = consequenceResults trace := by
    unfold consequenceResults
    exact filterMap_entries ht fun e => by cases e; rfl
  have hcounts : ruleCounts trace' = ruleCounts trace := by
    rw [ruleCounts, ht.entries, List.foldl_map]
    rfl
  rw [account, decisionSteps_eq h ht, conditionResults_eq h hρ ht, hconsequences, ruleReport,
    hcounts, account, ruleReport]

theorem omissions_eq : omissions index' trace' = omissions index trace := by
  rw [omissions, alternatives_eq h hρ ht, errorReport_eq h ht, omissions]

end Answers

theorem lines_eq (hρ : Function.Injective ρ) {root root' : Node} (h : root.Renamed ρ root')
    {trace trace' : Trace} (ht : trace.Renamed ρ trace') (question : Question) :
    lines root' trace' question = lines root trace question := by
  have hindex := NodeIndex.renamed_ofNode hρ h
  cases question with
  | why => simp only [lines, account_eq hindex hρ ht]
  | whyNot action =>
    have htarget := h.findConsequence? action
    simp only [lines, findTarget, account_eq hindex hρ ht, omissions_eq hindex hρ ht]
    generalize root.findConsequence? action = c, root'.findConsequence? action = d at htarget
    cases htarget with
    | none => rfl
    | some hcd =>
      refine congrArg Except.ok ?_
      rw [hcd.label_eq, whyNot_eq hindex hρ ht hcd]

end Explanation

/-- A tree under other identities has the same explanations. -/
theorem explain_renamed (hρ : Function.Injective ρ) {root root' : Node} (h : root.Renamed ρ root')
    {trace trace' : Trace} (ht : trace.Renamed ρ trace') (question : Question) :
    explain root' trace' question = explain root trace question := by
  rw [explain, Explanation.lines_eq hρ h ht, explain]

/-- A marked tree has the explanations of the tree. -/
theorem explain_withMarks (executed : NodeId → Bool) (activations : NodeId → Nat) (root : Node)
    (trace : Trace) (question : Question) :
    explain (root.withMarks executed activations) trace question = explain root trace question :=
  explain_renamed Function.injective_id (root.renamed_withMarks executed activations) (.refl trace)
    question

end Rulebook
