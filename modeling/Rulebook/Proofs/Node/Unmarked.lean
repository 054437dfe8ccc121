import Rulebook.Proofs.Node.Marks
import Rulebook.Proofs.Node.Renamed

/-!
# What does not tell marks

Flags and counts are notes for the reader of a tree. Neither its texts nor its searches depend on
them, and marks that are made anew take the place of those that were there.

## Main definitions

* `Kind.mark`: a variant with other notes

## Main results

* `Node.withMarks_withMarks`: the last marks count
* `Node.renamed_withMarks`: a marked tree is the tree, under the same identities
* `Node.find?_withMarks`: searches in marked trees
-/

namespace Rulebook

/-! ## Variants -/

namespace Kind

variable {α β : Type}

/-- A variant with other notes. -/
def mark (executed : Bool) (activations : Nat) : Kind α → Kind α
  | consequence c => consequence { c with executed }
  | rule head body => rule { head with activations } body
  | k => k

variable (executed : Bool) (activations : Nat)

@[simp] theorem name_mark (k : Kind α) : (k.mark executed activations).name = k.name := by
  cases k <;> rfl

@[simp] theorem name_map (f : α → β) (k : Kind α) : (k.map f).name = k.name := by
  cases k <;> rfl

@[simp] theorem weight?_mark (k : Kind α) :
    (k.mark executed activations).weight? = k.weight? := by
  cases k <;> rfl

theorem mark_map_mark (executed' : Bool) (activations' : Nat) (f : α → β) (k : Kind α) :
    ((k.mark executed activations).map f).mark executed' activations' =
      (k.map f).mark executed' activations' := by
  cases k <;> rfl

theorem map_congr {f g : α → β} {k : Kind α} (h : ∀ a ∈ k.operands, f a = g a) :
    k.map f = k.map g := by
  rw [← refill_operands, ← refill_operands, List.map_congr_left h]

/-- Evaluation does not look at notes. -/
theorem Matches.mark {N : α → β → Prop} {k : Kind α} {l : Kind β} (h : k.Matches N l) :
    k.Matches N (l.mark executed activations) := by
  cases h with
  | consequence haction hkind => exact .consequence haction hkind
  | rule hname hactive hbody => exact .rule hname hactive hbody
  | decision hc hy hn => exact .decision hc hy hn
  | logic op hl hr => exact .logic op hl hr
  | comparison op hl hr => exact .comparison op hl hr
  | identifier name => exact .identifier name
  | literal l => exact .literal l
  | chain order hf hs => exact .chain order hf hs
  | arithmetic op hl hr => exact .arithmetic op hl hr
  | block => exact .block
  | ruleCall name => exact .ruleCall name
  | extension tag => exact .extension tag

end Kind

namespace Node

variable (executed : NodeId → Bool) (activations : NodeId → Nat)

/-! ## Marked nodes -/

section Nodes

/-- A marked node has marked children and the notes that are about it. -/
theorem withMarks_eq (n : Node) :
    n.withMarks executed activations =
      { n with
        kind := (n.kind.map (withMarks executed activations)).mark (executed n.id)
          (activations n.id)
        children := n.children.map (withMarks executed activations) } := by
  rw [withMarks, mapKinds_eq]
  cases n.kind <;> rfl

theorem kind_withMarks (n : Node) :
    (n.withMarks executed activations).kind =
      (n.kind.map (withMarks executed activations)).mark (executed n.id) (activations n.id) := by
  rw [withMarks_eq]

theorem children_withMarks (n : Node) :
    (n.withMarks executed activations).children =
      n.children.map (withMarks executed activations) := by
  rw [withMarks_eq]

/-- Marks that are made later take the place of those that were there. -/
theorem withMarks_withMarks (executed' : NodeId → Bool) (activations' : NodeId → Nat) (n : Node) :
    (n.withMarks executed activations).withMarks executed' activations' =
      n.withMarks executed' activations' := by
  induction n using Node.induction with
  | step n ih =>
    have hkind := Kind.map_congr fun c hc => ih c (List.mem_append_left n.children hc)
    have hchildren := List.map_congr_left fun c hc =>
      ih c (List.mem_append_right n.kind.operands hc)
    rw [withMarks_eq, id_withMarks, kind_withMarks, children_withMarks, Kind.mark_map_mark,
      Kind.map_map, List.map_map, withMarks_eq executed' activations' n]
    simp only [withMarks_eq executed activations n, Function.comp_def, hkind, hchildren]

end Nodes

/-! ## Texts -/

section Texts

/-- A marked tree is the tree under the same identities. -/
theorem renamed_withMarks (n : Node) :
    Renamed (fun id => id) n (n.withMarks executed activations) := by
  induction n using Node.induction with
  | step n ih =>
    refine .intro (id_withMarks executed activations n) ?_ ?_ ?_
    · rw [kind_withMarks]
      exact (Kind.matches_map_of_mem fun c hc => ih c (List.mem_append_left _ hc)).mark _ _
    · rw [kind_withMarks, Kind.weight?_mark, Kind.weight?_map]
    · rw [children_withMarks, List.forall₂_map_right_iff]
      exact List.forall₂_same.2 fun c hc => ih c (List.mem_append_right _ hc)

@[simp] theorem brief_withMarks (n : Node) :
    (n.withMarks executed activations).brief = n.brief :=
  (renamed_withMarks executed activations n).brief_eq

@[simp] theorem label_withMarks (n : Node) :
    (n.withMarks executed activations).label = n.label :=
  (renamed_withMarks executed activations n).label_eq

end Texts

/-! ## Searches -/

section Searches

/-- A search for what does not depend on marks finds the marked node. -/
theorem find?_withMarks {test : Node → Bool}
    (htest : ∀ n : Node, test (n.withMarks executed activations) = test n) (n : Node) :
    (n.withMarks executed activations).find? test =
      (n.find? test).map (withMarks executed activations) := by
  have hcomp : test ∘ withMarks executed activations = test := funext htest
  rw [find?_eq, nodes_withMarks, List.find?_map, hcomp, find?_eq]

theorem findConsequence?_withMarks (action : String) (n : Node) :
    (n.withMarks executed activations).findConsequence? action =
      (n.findConsequence? action).map (withMarks executed activations) :=
  find?_withMarks executed activations
    (fun m => by rw [consequence?_withMarks]; cases m.kind.consequence? <;> rfl) n

/-- The table of rules of a marked tree holds the marked rules. -/
theorem find?_ruleTable_withMarks (name : String) (n : Node) :
    (n.withMarks executed activations).ruleTable.find? name =
      (n.ruleTable.find? name).map (withMarks executed activations) := by
  have htest (m : Node) : isRule name (m.withMarks executed activations) = m.isRule name := by
    rw [isRule, rule?_withMarks, isRule]
    cases m.kind.rule? <;> rfl
  rw [find?_ruleTable, find?_ruleTable, ← find?_eq, ← find?_eq, find?_withMarks _ _ htest]

end Searches

end Node

end Rulebook
