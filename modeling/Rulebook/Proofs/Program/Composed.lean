import Rulebook.Node.Edit
import Rulebook.Proofs.Node.Normal
import Rulebook.Proofs.Program.Planting

/-!
# Trees that are made in many steps

Trees come from sources, from factories and from copies, and they may be placed, extended and folded
before they become parts of others. Each of these operations looks after identities and links in its
own way. What they have in common is that the trees that are at hand stay a grove, which is shown
operation by operation; so all trees are sound, however they came about.

## Main definitions

* `Node.Factory`: the factories, with the trees that they take over
* `Node.Mends`: changes to a node that keep its identity and its link, and look after those below
* `Node.Composed`: the trees that are at hand after any number of operations

## Main results

* `Node.Mends.modifyAt`: such changes may be made anywhere in a tree
* `Node.grove_copy`, `Node.mends_folded`, `Node.mends_addChild`: copies, folding and new children
* `Node.Composed.grove`: the trees at hand have no identity in common, and right links
* `Node.composed_sound`: trees that are composed are sound, and what folding keeps of a tree
-/

namespace Rulebook

namespace Node

/-! ## Factories -/

section Factories

/-- The factories, and the trees that they take over. -/
inductive Factory : List Node → Fresh Node → Prop
  | make (kind : Kind Node) : Factory kind.operands (make kind)
  | decision (condition : Node) (yes no : Option Node) :
    Factory (condition :: (yes.toList ++ no.toList)) (decision condition yes no)
  | consequence (action : String) (kind : ConsequenceKind) : Factory [] (consequence action kind)
  | assignment (name : String) (value : Node) : Factory [value] (assignment name value)
  | rule (name : String) (body : Node) : Factory [body] (rule name body)
  | logic (op : LogicOp) (left right : Node) : Factory [left, right] (logic op left right)
  | not (operand : Node) : Factory [operand] (not operand)
  | comparison (op : CompareOp) (left right : Node) :
    Factory [left, right] (comparison op left right)
  | identifier (name : String) : Factory [] (identifier name)
  | literal (l : Literal) : Factory [] (literal l)
  | chain (order : ChainOrder) (first second : Node) :
    Factory [first, second] (chain order first second)
  | arithmetic (op : ArithOp) (left : Node) (right : Option Node) :
    Factory (left :: right.toList) (arithmetic op left right)
  | block (statements : List Node) : Factory statements (block statements)
  | ruleCall (name : String) : Factory [] (ruleCall name)

/-- Each factory issues one identity, for a node that takes over its parts. -/
theorem Factory.exists_linked {parts : List Node} {f : Fresh Node} (h : Factory parts f) :
    ∃ kind children, kind.operands ++ children = parts ∧
      ∀ id, f id = (.linked id kind children, ⟨id.number + 1⟩) := by
  cases h with
  | make kind => exact ⟨kind, [], List.append_nil _, fun _ => rfl⟩
  | decision condition yes no =>
    refine ⟨.decision (some condition) yes no, [], ?_, fun _ => rfl⟩
    cases yes <;> cases no <;> rfl
  | consequence action kind => exact ⟨.consequence { action, kind }, [], rfl, fun _ => rfl⟩
  | assignment name value =>
    exact ⟨.consequence { action := name, kind := .assign }, [value], rfl, fun _ => rfl⟩
  | rule name body => exact ⟨.rule { name } (some body), [], rfl, fun _ => rfl⟩
  | logic op left right => exact ⟨.logic op (some left) (some right), [], rfl, fun _ => rfl⟩
  | not operand => exact ⟨.logic .not (some operand) none, [], rfl, fun _ => rfl⟩
  | comparison op left right =>
    exact ⟨.comparison op (some left) (some right), [], rfl, fun _ => rfl⟩
  | identifier name => exact ⟨.identifier name, [], rfl, fun _ => rfl⟩
  | literal l => exact ⟨.literal l, [], rfl, fun _ => rfl⟩
  | chain order first second =>
    exact ⟨.chain order (some first) (some second), [], rfl, fun _ => rfl⟩
  | arithmetic op left right =>
    refine ⟨.arithmetic op (some left) right, [], ?_, fun _ => rfl⟩
    cases right <;> rfl
  | block => exact ⟨.block, parts, rfl, fun _ => rfl⟩
  | ruleCall name => exact ⟨.ruleCall name, [], rfl, fun _ => rfl⟩

end Factories

/-! ## Changes within a tree -/

section Changes

/-- A change to a node keeps its identity and its link. Other identities come to stand in the tree
only if they are among some new ones, and links stay right. -/
structure Mends (new : List NodeId) (f : Node → Node) : Prop where
  id : ∀ n, (f n).id = n.id
  parent : ∀ n, (f n).parent = n.parent
  ids : ∀ n, (idsOf [f n]).Subperm (idsOf [n] ++ new)
  linked : ∀ n, n.WellLinked → (f n).WellLinked

variable {new : List NodeId} {f : Node → Node}

theorem childNodes_withChildNodes (n : Node) (ns : List Node) :
    (n.withChildNodes ns).childNodes = ns :=
  Kind.refill_parts n.kind ns

theorem idsOf_singleton_eq (n : Node) : idsOf [n] = n.id :: idsOf n.childNodes := by
  rw [idsOf_cons, idsOf_nil, List.append_nil]

/-- One of some trees is changed. -/
theorem Mends.ids_cons (h : Mends new f) (n : Node) (ns : List Node) :
    (idsOf (f n :: ns)).Subperm (idsOf (n :: ns) ++ new) := by
  have happend (m : Node) : idsOf (m :: ns) = idsOf [m] ++ idsOf ns := idsOf_append [m] ns
  have hperm : (idsOf [n] ++ new ++ idsOf ns).Perm (idsOf [n] ++ idsOf ns ++ new) := by
    rw [List.append_assoc, List.append_assoc]
    exact List.perm_append_comm.append_left _
  rw [happend, happend]
  exact ((List.subperm_append_right _).2 (h.ids n)).trans hperm.subperm

theorem Mends.ids_modify (h : Mends new f) (ns : List Node) (i : Nat) :
    (idsOf (ns.modify i f)).Subperm (idsOf ns ++ new) := by
  induction ns generalizing i with
  | nil =>
    rw [List.modify_nil]
    exact (List.sublist_append_left [] new).subperm
  | cons n ns ih =>
    cases i with
    | zero => exact h.ids_cons n ns
    | succ i =>
      have happend (ms : List Node) : idsOf (n :: ms) = idsOf [n] ++ idsOf ms :=
        idsOf_append [n] ms
      rw [List.modify_succ_cons, happend (ns.modify i f), happend ns, List.append_assoc]
      exact (List.subperm_append_left _).2 (ih i)

theorem forall_mem_modify {P : Node → Prop} {ns : List Node} (h : ∀ n ∈ ns, P n ∧ P (f n))
    (i : Nat) : ∀ n ∈ ns.modify i f, P n := by
  induction ns generalizing i with
  | nil =>
    rw [List.modify_nil]
    exact List.forall_mem_nil _
  | cons n ns ih =>
    obtain ⟨hn, hns⟩ := List.forall_mem_cons.1 h
    cases i with
    | zero => exact List.forall_mem_cons.2 ⟨hn.2, fun m hm => (hns m hm).1⟩
    | succ i => exact List.forall_mem_cons.2 ⟨hn.1, ih hns i⟩

/-- A node may be changed anywhere in a tree. -/
theorem Mends.modifyAt (h : Mends new f) (path : List Nat) : Mends new (modifyAt f path) := by
  induction path with
  | nil => exact h
  | cons i path ih =>
    have hchildNodes (n : Node) : (Node.modifyAt f (i :: path) n).childNodes =
        n.childNodes.modify i (Node.modifyAt f path) := childNodes_withChildNodes n _
    refine ⟨fun _ => rfl, fun _ => rfl, fun n => ?_, fun n hn => ?_⟩
    · rw [idsOf_singleton_eq, idsOf_singleton_eq n, hchildNodes, List.cons_append]
      exact (List.subperm_cons n.id).2 (ih.ids_modify n.childNodes i)
    · obtain ⟨hparents, hbelow⟩ := wellLinked_iff.1 hn
      rw [wellLinked_iff, hchildNodes]
      refine ⟨forall_mem_modify (fun c hc => ⟨hparents c hc, ?_⟩) i,
        forall_mem_modify (fun c hc => ⟨hbelow c hc, ih.linked c (hbelow c hc)⟩) i⟩
      rw [ih.parent]
      exact hparents c hc

theorem mends_withSpan (span : Span) (line : Nat) : Mends [] (withSpan · span line) where
  id _ := rfl
  parent _ := rfl
  ids n := by
    rw [List.append_nil, idsOf_singleton_eq, idsOf_singleton_eq n]
    exact .refl _
  linked _ := wellLinked_withSpan.2

/-- A node gets a new child. -/
theorem mends_addChild {c : Node} (hc : c.WellLinked) : Mends (idsOf [c]) (addChild · c) where
  id _ := rfl
  parent _ := rfl
  ids n := by
    have hchildNodes : (n.addChild c).childNodes = n.childNodes ++ [c.withParent n.id] := by
      rw [childNodes, childNodes, List.append_assoc]
      rfl
    have hlink : idsOf [c.withParent n.id] = idsOf [c] := idsOf_map_withParent [c] n.id
    rw [idsOf_singleton_eq, idsOf_singleton_eq n, hchildNodes, idsOf_append, hlink]
    exact .refl _
  linked n hn := by
    have hchildNodes : (n.addChild c).childNodes = n.childNodes ++ [c.withParent n.id] := by
      rw [childNodes, childNodes, List.append_assoc]
      rfl
    obtain ⟨hparents, hbelow⟩ := wellLinked_iff.1 hn
    rw [wellLinked_iff, hchildNodes]
    simp only [List.forall_mem_append, List.forall_mem_singleton]
    exact ⟨⟨hparents, rfl⟩, hbelow, wellLinked_withParent.2 hc⟩

/-- Folding takes nodes away, and keeps all others with their links. -/
theorem wellLinked_fold (levels : Nat) {n : Node} (h : n.WellLinked) :
    (n.fold levels).WellLinked := by
  induction levels generalizing n with
  | zero => exact h
  | succ levels ih =>
    obtain ⟨hparents, hbelow⟩ := wellLinked_iff.1 h
    obtain ⟨cs, hcs, hchildNodes⟩ := exists_childNodes_fold levels n
    rw [wellLinked_iff, hchildNodes]
    simp only [List.forall_mem_map]
    refine ⟨fun c hc => ?_, fun c hc => ih (hbelow c (hcs.subset hc))⟩
    rw [(keeps_fold levels c).parent, (keeps_fold (levels + 1) n).id]
    exact hparents c (hcs.subset hc)

theorem mends_folded : Mends [] folded where
  id n := by
    obtain ⟨levels, h⟩ := n.exists_folded_eq
    rw [h, (keeps_fold levels n).id]
  parent n := by
    obtain ⟨levels, h⟩ := n.exists_folded_eq
    rw [h, (keeps_fold levels n).parent]
  ids n := by
    obtain ⟨levels, h⟩ := n.exists_folded_eq
    obtain ⟨survivors, hsub, hkeeps⟩ := survivors_fold levels n
    have hids : List.Forall₂ Eq (survivors.map Node.id) ((n.fold levels).nodes.map Node.id) := by
      rw [List.forall₂_map_left_iff, List.forall₂_map_right_iff]
      exact hkeeps.imp fun _ _ h => h.id.symm
    rw [List.forall₂_eq_eq_eq] at hids
    rw [h, List.append_nil, idsOf_singleton, idsOf_singleton, ← hids]
    exact (hsub.map Node.id).subperm
  linked n hn := by
    obtain ⟨levels, h⟩ := n.exists_folded_eq
    rw [h]
    exact wellLinked_fold levels hn

end Changes

/-! ## Trees at hand -/

section Composed

variable {first next last : Nat} {n : Node} {ns : List Node}

/-- One of the trees is changed, and may take over others. -/
theorem Grove.mend (cs : List Node) {f : Node → Node} (h : Grove first next (n :: (cs ++ ns)))
    (hf : Mends (idsOf cs) f) : Grove first next (f n :: ns) := by
  obtain ⟨hn, hns⟩ := List.forall_mem_cons.1 h.linked
  refine h.shrink ?_ (List.forall_mem_cons.2 ⟨hf.linked n hn, (List.forall_mem_append.1 hns).2⟩)
  refine (hf.ids_cons n ns).trans ?_
  rw [← idsOf_append]
  exact (idsOf_perm (List.perm_append_comm.cons n)).subperm

/-- A tree comes to the others, with identities that are issued for it. -/
theorem Grove.cons (h : Grove first next ns) (hn : Grove next last [n]) (hfirst : first ≤ next) :
    Grove first last (n :: ns) := by
  have hid : n.id ∈ idsOf [n] := by
    rw [idsOf_singleton_eq]
    exact List.mem_cons_self
  have hlast : next ≤ last := (hn.issued n.id hid).1.trans (hn.issued n.id hid).2.le
  exact (h.append hn hfirst hlast).subperm (List.perm_append_singleton n ns).symm.subperm

/-- A copy has new identities. -/
theorem grove_copy (n : Node) (next : NodeId) :
    Grove next.number (n.copy next).2.number [(n.copy next).1] := by
  obtain ⟨m, hm, hcopy⟩ := exists_duplicate n next.number
  have hcopied : n.copy next = (m, ⟨next.number + m.postorder.length⟩) := hm.rebuild
  have hperm : (m.postorder.map Node.id).Perm (idsOf [m]) := by
    rw [idsOf_singleton]
    exact m.postorder_perm.map Node.id
  rw [hcopied]
  refine ⟨hperm.nodup_iff.1 hcopy.issued.nodup, fun i hi => ?_,
    List.forall_mem_singleton.2 hcopy.wellLinked⟩
  rw [← hperm.mem_iff, issued_iff.1 hcopy.issued] at hi
  obtain ⟨k, hk, rfl⟩ := List.mem_map.1 hi
  exact List.mem_range'_1.1 hk

/-- The trees that are at hand after some operations, with the next identity. A tree that becomes a
part of another one is no longer at hand. Trees may be changed at any of their nodes, and any of
their nodes may be copied. -/
inductive Composed : NodeId → List Node → Prop
  | start (next : NodeId) : Composed next []
  | choose {next : NodeId} {ms ns : List Node} (h : Composed next ns) (hms : ms.Subperm ns) :
    Composed next ms
  | create {next : NodeId} {parts ns : List Node} {f : Fresh Node}
    (h : Composed next (parts ++ ns)) (hf : Factory parts f) :
    Composed (f next).2 ((f next).1 :: ns)
  | withSpan {next : NodeId} {n : Node} {ns : List Node} (h : Composed next (n :: ns))
    (path : List Nat) (span : Span) (line : Nat) :
    Composed next (n.modifyAt (withSpan · span line) path :: ns)
  | addChild {next : NodeId} {n c : Node} {ns : List Node} (h : Composed next (n :: c :: ns))
    (path : List Nat) : Composed next (n.modifyAt (addChild · c) path :: ns)
  | copy {next : NodeId} {n m : Node} {ns : List Node} (h : Composed next (n :: ns))
    (hm : m ∈ n.nodes) : Composed (m.copy next).2 ((m.copy next).1 :: n :: ns)
  | parse {next : NodeId} {ns : List Node} (h : Composed next ns) (scan : ScanSettings)
    (maxDepth : Nat) (source : String) :
    Composed (Program.parse scan maxDepth source next).2
      ((Program.parse scan maxDepth source next).1.tree :: ns)
  | fold {next : NodeId} {n : Node} {ns : List Node} (h : Composed next (n :: ns))
    (path : List Nat) : Composed next (n.modifyAt folded path :: ns)

/-- The trees at hand have no identity in common, and right links. -/
theorem Composed.grove {next : NodeId} (h : Composed next ns) : Grove 0 next.number ns := by
  induction h with
  | start next => exact .nil _ _
  | choose _ hms ih => exact ih.subperm hms
  | @create next _ _ _ _ hf ih =>
    obtain ⟨kind, children, rfl, hlinked⟩ := hf.exists_linked
    rw [hlinked]
    exact ih.plant (Nat.zero_le _)
  | withSpan _ path span line ih => exact .mend [] ih ((mends_withSpan span line).modifyAt path)
  | @addChild _ n c _ _ path ih =>
    have hc : c.WellLinked := ih.linked c (List.mem_cons_of_mem n List.mem_cons_self)
    exact .mend [c] ih ((mends_addChild hc).modifyAt path)
  | @copy next _ m _ _ _ ih => exact ih.cons (grove_copy m next) (Nat.zero_le _)
  | @parse next _ _ scan maxDepth source ih =>
    exact ih.cons (Program.grown_parse scan maxDepth source next).2 (Nat.zero_le _)
  | fold _ path ih => exact .mend [] ih (mends_folded.modifyAt path)

/-- **Trees are sound however they came about.** In any tree that is composed by factories, places,
new children, copies, sources and folding, in any order and number, no identity occurs twice, and
all nodes below the root name their owners. Of any tree that is folded, the nodes that are left are
nodes of the tree, in their order, with the identities, spans, lines and generic children that they
had. A tree that passes the check can be folded, and the folded tree passes the check too. -/
theorem composed_sound :
    (∀ next ns, Composed next ns → ∀ n ∈ ns, n.Sound) ∧
      (∀ (n m : Node) (k : Nat), n.foldConstants = .ok (m, k) →
        ∃ survivors, survivors.Sublist n.nodes ∧ List.Forall₂ Keeps survivors m.nodes) ∧
      ∀ n : Node, n.check = .ok () → ∃ m k, n.foldConstants = .ok (m, k) ∧ m.check = .ok () := by
  refine ⟨fun next ns h n hn => h.grove.sound hn, fun n m k h => ?_, fun n h => ?_⟩
  · rw [foldConstants] at h
    split at h
    · cases h
    · cases h
      exact survivors_fold maxTreeDepth n
  · obtain ⟨hdepth, hflawless⟩ := check_eq_ok.1 h
    refine ⟨_, _, foldConstants_of_le hdepth, check_eq_ok.2 ⟨?_, ?_⟩⟩
    · exact (depth_fold_le maxTreeDepth n).trans hdepth
    · exact flawless_fold maxTreeDepth hflawless

/-- A short program. -/
def guarded : Program × NodeId :=
  Program.parse {} 256 "if 1 + 1 > 1 then win end" ⟨0⟩

/-- The program, behind a copy of it. -/
def twins : Node × NodeId :=
  block [(guarded.1.tree.copy guarded.2).1, guarded.1.tree] (guarded.1.tree.copy guarded.2).2

/-- The programs, with a variable behind them. -/
def extended : Node :=
  twins.1.addChild (identifier "x" twins.2).1

theorem composed_sound_extended :
    extended.folded.Sound ∧ guarded.1.tree.check = .ok () ∧
      ∃ m k, guarded.1.tree.foldConstants = .ok (m, k) ∧ m.check = .ok () ∧
        ∃ survivors, survivors.Sublist guarded.1.tree.nodes ∧
          List.Forall₂ Keeps survivors m.nodes := by
  have hguarded : Composed guarded.2 [guarded.1.tree] := .parse (.start ⟨0⟩) {} 256 _
  have htwins : Composed twins.2 [twins.1] :=
    .create (hguarded.copy (mem_nodes_self _)) (.block _)
  have hnone : Composed twins.2 ([] ++ [twins.1]) := htwins
  have hextended : Composed (identifier "x" twins.2).2 [extended] :=
    ((hnone.create (.identifier "x")).choose (List.Perm.swap _ _ _).subperm).addChild []
  have hcheck : guarded.1.tree.check = .ok () := by decide +kernel
  obtain ⟨hsound, hkeeps, hchecks⟩ := composed_sound
  obtain ⟨m, k, hfold, hm⟩ := hchecks _ hcheck
  exact ⟨hsound _ _ (hextended.fold []) _ List.mem_cons_self, hcheck, m, k, hfold, hm,
    hkeeps _ m k hfold⟩

end Composed

end Node

end Rulebook
