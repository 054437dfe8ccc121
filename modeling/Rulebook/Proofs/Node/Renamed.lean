import Rulebook.Node.Printer
import Rulebook.Proofs.Evaluation.Congruence
import Rulebook.Proofs.Node.Same

/-!
# Trees under other identities

Two trees may have the same structure and carry the same, and still differ in the identities of
their nodes, in places, in parents, and in the flags and counts that evaluations leave. The texts
of such trees are the same, and searches end at the same nodes.

## Main definitions

* `Node.Renamed`: a tree is another one, under other identities

## Main results

* `Node.Renamed.text_eq`, `Node.Renamed.label_eq`, `Node.Renamed.brief_eq`: the same texts
* `Node.Renamed.nodes`: the nodes of the two trees, in preorder, correspond to each other
* `Node.Renamed.ruleTable`: so do the rules with the same name
-/

namespace Rulebook

/-! ## Rows side by side -/

section Rows

variable {α β γ : Type} {R : α → β → Prop} {as : List α} {bs : List β}

theorem map_eq_of_forall₂ (h : List.Forall₂ R as bs) {f : α → γ} {g : β → γ}
    (hfg : ∀ {a b}, R a b → g b = f a) : bs.map g = as.map f := by
  induction h with
  | nil => rfl
  | cons hab _ ih => rw [List.map_cons, List.map_cons, hfg hab, ih]

theorem filterMap_eq_of_forall₂ (h : List.Forall₂ R as bs) {f : α → Option γ} {g : β → Option γ}
    (hfg : ∀ {a b}, R a b → g b = f a) : bs.filterMap g = as.filterMap f := by
  induction h with
  | nil => rfl
  | cons hab _ ih => rw [List.filterMap_cons, List.filterMap_cons, hfg hab, ih]

theorem rel_find? (h : List.Forall₂ R as bs) {p : α → Bool} {q : β → Bool}
    (hpq : ∀ {a b}, R a b → q b = p a) : Option.Rel R (as.find? p) (bs.find? q) := by
  induction h with
  | nil => exact .none
  | @cons a b _ _ hab _ ih =>
    rw [List.find?_cons, List.find?_cons, hpq hab]
    cases p a with
    | true => exact .some hab
    | false => exact ih

theorem rel_head? (h : List.Forall₂ R as bs) : Option.Rel R as.head? bs.head? := by
  cases h with
  | nil => exact .none
  | cons hab _ => exact .some hab

theorem forall₂_flatMap {α' β' : Type} {R' : α' → β' → Prop} {f : α → List α'} {g : β → List β'}
    (h : List.Forall₂ R as bs) (hfg : ∀ a ∈ as, ∀ b, R a b → List.Forall₂ R' (f a) (g b)) :
    List.Forall₂ R' (as.flatMap f) (bs.flatMap g) := by
  induction h with
  | nil => exact .nil
  | @cons a b _ _ hab _ ih =>
    rw [List.flatMap_cons, List.flatMap_cons]
    exact List.rel_append (hfg a List.mem_cons_self b hab)
      (ih fun a' ha' => hfg a' (List.mem_cons_of_mem a ha'))

end Rows

/-- The weight of a consequence. -/
def Kind.weight? {α : Type} (k : Kind α) : Option Float :=
  k.consequence?.map Consequence.weight

@[simp] theorem Kind.weight?_map {α β : Type} (f : α → β) (k : Kind α) :
    (k.map f).weight? = k.weight? := by
  cases k <;> rfl

theorem Kind.Matches.name_eq {α β : Type} {N : α → β → Prop} {k : Kind α} {l : Kind β}
    (h : k.Matches N l) : l.name = k.name := by
  cases h <;> rfl

theorem Kind.Matches.operands {α β : Type} {N : α → β → Prop} {k : Kind α} {l : Kind β}
    (h : k.Matches N l) : List.Forall₂ N k.operands l.operands := by
  have hslots : List.Forall₂ (Option.Rel N) k.slots l.slots := by
    cases h with
    | decision hc hy hn => exact .cons hc (.cons hy (.cons hn .nil))
    | rule _ _ hbody => exact .cons hbody .nil
    | logic _ hl hr | comparison _ hl hr | chain _ hl hr | arithmetic _ hl hr =>
      exact .cons hl (.cons hr .nil)
    | _ => exact .nil
  exact List.rel_filterMap (fun _ _ hab => hab) hslots

namespace Node

/-- A tree is another one, under other identities. Places, parents, flags and counts may differ as
well. -/
inductive Renamed (ρ : NodeId → NodeId) : Node → Node → Prop where
  | intro {n m : Node} (hid : m.id = ρ n.id) (hkind : n.kind.Matches (Renamed ρ) m.kind)
      (hweight : m.kind.weight? = n.kind.weight?)
      (hchildren : List.Forall₂ (Renamed ρ) n.children m.children) : Renamed ρ n m

namespace Renamed

variable {ρ : NodeId → NodeId} {n m : Node}

/-! ## Parts -/

section Parts

theorem id_eq (h : Renamed ρ n m) : m.id = ρ n.id := by
  cases h with
  | intro hid => exact hid

theorem kind (h : Renamed ρ n m) : n.kind.Matches (Renamed ρ) m.kind := by
  cases h with
  | intro _ hkind => exact hkind

theorem weight?_eq (h : Renamed ρ n m) : m.kind.weight? = n.kind.weight? := by
  cases h with
  | intro _ _ hweight => exact hweight

theorem children (h : Renamed ρ n m) : List.Forall₂ (Renamed ρ) n.children m.children := by
  cases h with
  | intro _ _ _ hchildren => exact hchildren

theorem childNodes (h : Renamed ρ n m) :
    List.Forall₂ (Renamed ρ) n.childNodes m.childNodes :=
  List.rel_append h.kind.operands h.children

end Parts

/-! ## Texts -/

section Texts

theorem strength_eq (h : Renamed ρ n m) : m.strength = n.strength := by
  have hkind := h.kind
  unfold strength
  generalize n.kind = k, m.kind = l at hkind
  cases hkind with
  | consequence haction hkind => simp only [hkind]
  | _ => rfl

theorem brief_eq (h : Renamed ρ n m) : m.brief = n.brief := by
  have hkind := h.kind
  have hlength := h.children.length_eq
  unfold brief
  generalize n.kind = k, m.kind = l at hkind
  cases hkind with
  | consequence haction hkind => simp only [haction, hkind]
  | rule hname => simp only [hname]
  | block => simp only [hlength]
  | _ => rfl

variable {text : Node → String} (htext : ∀ {n m}, Renamed ρ n m → text m = text n)
include htext

theorem operandText_eq {o o' : Option Node} (ho : Option.Rel (Renamed ρ) o o')
    (strength : Nat) : operandText text strength o' = operandText text strength o := by
  cases ho with
  | none => rfl
  | some h => simp only [operandText, h.strength_eq, htext h]

theorem binaryText_eq {l r l' r' : Option Node} (hl : Option.Rel (Renamed ρ) l l')
    (hr : Option.Rel (Renamed ρ) r r') (strength : Nat) (symbol : String) :
    binaryText text strength symbol l' r' = binaryText text strength symbol l r := by
  simp only [binaryText, operandText_eq htext hl, operandText_eq htext hr]

theorem bodyText_eq {body body' : Option Node} (hbody : Option.Rel (Renamed ρ) body body') :
    bodyText text body' = bodyText text body := by
  cases hbody with
  | none => rfl
  | @some n m h =>
    have hkind := h.kind
    have hself := htext h
    unfold bodyText
    dsimp only
    generalize n.kind = k, m.kind = l at hkind
    cases hkind with
    | block =>
      exact congrArg String.join (map_eq_of_forall₂ h.children fun hc => by rw [htext hc])
    | _ => simp only [hself]

theorem renderWith_eq (h : Renamed ρ n m) : m.renderWith text = n.renderWith text := by
  have hkind := h.kind
  have hweight := h.weight?_eq
  have hbranch {o o' : Option Node} (ho : Option.Rel (Renamed ρ) o o') (s : String) :
      o'.map (fun m => s ++ text m) = o.map fun m => s ++ text m := by
    cases ho with
    | none => rfl
    | some h => rw [Option.map_some, Option.map_some, htext h]
  unfold renderWith
  generalize n.kind = k, m.kind = l at hkind hweight
  cases hkind with
  | decision hc hy hn => simp only [operandText_eq htext hc, hbranch hy, hbranch hn]
  | consequence haction hkind =>
    have hvalue := operandText_eq htext (rel_head? h.children)
    have hweight : _ = _ := Option.some_inj.1 hweight
    simp only [consequenceText, haction, hkind, hweight, hvalue]
  | rule hname _ hbody => simp only [hname, bodyText_eq htext hbody]
  | logic op hl hr =>
    cases op <;> simp only [operandText_eq htext hl, binaryText_eq htext hl hr]
  | arithmetic op hl hr =>
    cases op <;> simp only [operandText_eq htext hl, binaryText_eq htext hl hr]
  | comparison op hl hr | chain op hl hr => simp only [binaryText_eq htext hl hr]
  | block =>
    have hlines : m.children.map text = n.children.map text := map_eq_of_forall₂ h.children htext
    simp only [hlines]
  | _ => rfl

omit htext

theorem render_eq (levels : Nat) {n m : Node} (h : Renamed ρ n m) :
    m.render levels = n.render levels := by
  induction levels generalizing n m with
  | zero => rfl
  | succ levels ih => exact renderWith_eq ih h

theorem text_eq (h : Renamed ρ n m) : m.text = n.text :=
  render_eq maxTreeDepth h

theorem label_eq (h : Renamed ρ n m) : m.label = n.label := by
  have hkind := h.kind
  have htext := h.text_eq
  have hbrief := h.brief_eq
  unfold label
  generalize n.kind = k, m.kind = l at hkind
  cases hkind with
  | decision hc =>
    cases hc with
    | none => rfl
    | some hc => simp only [hc.text_eq]
  | logic | comparison | arithmetic | chain => exact htext
  | _ => exact hbrief

end Texts

/-! ## Searches -/

section Searches

theorem nodes (h : Renamed ρ n m) : List.Forall₂ (Renamed ρ) n.nodes m.nodes := by
  induction n using Node.induction generalizing m with
  | step n ih =>
    rw [nodes_eq, nodes_eq]
    exact .cons h (forall₂_flatMap h.childNodes fun c hc _ hcd => ih c hc hcd)

theorem ids_eq (h : Renamed ρ n m) : m.nodes.map Node.id = (n.nodes.map Node.id).map ρ := by
  rw [List.map_map]
  exact map_eq_of_forall₂ h.nodes id_eq

theorem consequence? (h : Renamed ρ n m) : Option.Rel (fun c c' => c'.action = c.action)
    n.kind.consequence? m.kind.consequence? := by
  have hkind := h.kind
  generalize n.kind = k, m.kind = l at hkind
  cases hkind with
  | consequence haction => exact .some haction
  | _ => exact .none

theorem findConsequence? (h : Renamed ρ n m) (action : String) :
    Option.Rel (Renamed ρ) (n.findConsequence? action) (m.findConsequence? action) := by
  rw [Node.findConsequence?, Node.findConsequence?, find?_eq, find?_eq]
  refine rel_find? h.nodes fun {c d} hcd => ?_
  have hconsequence := hcd.consequence?
  generalize c.kind.consequence? = a, d.kind.consequence? = b at hconsequence
  cases hconsequence with
  | none => rfl
  | some haction => simp only [Option.any_some, haction]

theorem isRule_eq (h : Renamed ρ n m) (name : String) : m.isRule name = n.isRule name := by
  have hkind := h.kind
  unfold isRule
  generalize n.kind = k, m.kind = l at hkind
  cases hkind with
  | rule hname => simp only [Kind.rule?, Option.any_some, hname]
  | _ => rfl

theorem ruleTable (h : Renamed ρ n m) (name : String) :
    Option.Rel (Renamed ρ) (n.ruleTable.find? name) (m.ruleTable.find? name) := by
  rw [find?_ruleTable, find?_ruleTable]
  exact rel_find? h.nodes fun hcd => hcd.isRule_eq name

end Searches

end Renamed

end Node

end Rulebook
