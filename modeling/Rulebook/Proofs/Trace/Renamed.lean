import Rulebook.Proofs.Node.Renamed
import Rulebook.Proofs.Trace.Links

/-!
# Traces under other identities

Two traces that recorded the same about two trees that differ in their identities hold the same
entries, about nodes that correspond to each other. What is looked up in them corresponds, too.

## Main definitions

* `TraceEntry.rename`: an entry that is about another node
* `Trace.Recording.Renamed`: recordings about nodes that correspond to each other
* `Trace.Renamed`: traces of such recordings

## Main results

* `Trace.Renamed.perform`: recordings keep the correspondence
* `Trace.Renamed.lastOfKind?_eq`: so do the links between the entries of a node
-/

namespace Rulebook

/-- An entry that is about another node. -/
def TraceEntry.rename (ρ : NodeId → NodeId) (e : TraceEntry) : TraceEntry :=
  { e with node := e.node.map ρ }

/-- A frame of another node. -/
def Frame.rename (ρ : NodeId → NodeId) (f : Frame) : Frame :=
  { f with node := ρ f.node }

@[simp] theorem TraceEntry.kind_rename (ρ : NodeId → NodeId) (e : TraceEntry) :
    (e.rename ρ).kind = e.kind := rfl

theorem TraceEntry.rename_id (e : TraceEntry) : e.rename id = e := by
  rw [rename, Option.map_id_fun, id]

theorem TraceEntry.rename_rename (ρ ρ' : NodeId → NodeId) (e : TraceEntry) :
    (e.rename ρ).rename ρ' = e.rename (ρ' ∘ ρ) := by
  simp only [rename, Option.map_map]

namespace Trace

/-- Recordings of the same about nodes that correspond to each other. -/
inductive Recording.Renamed (ρ : NodeId → NodeId) : Recording → Recording → Prop where
  | heading (title : String) : Renamed ρ (.heading title) (.heading title)
  | enter {n m : Node} (h : n.Renamed ρ m) : Renamed ρ (.enter n) (.enter m)
  | exit {n m : Node} (h : n.Renamed ρ m) (result : Value) :
      Renamed ρ (.exit n result) (.exit m result)
  | condition {n m : Node} (h : n.Renamed ρ m) (value : Value) :
      Renamed ρ (.condition n value) (.condition m value)
  | decision {n m : Node} (h : n.Renamed ρ m) (branch : Branch) :
      Renamed ρ (.decision n branch) (.decision m branch)
  | consequence {n m : Node} (h : n.Renamed ρ m) (o : Outcome Value) :
      Renamed ρ (.consequence n o) (.consequence m o)
  | activation {n m : Node} (h : n.Renamed ρ m) (rule : String) (count : Nat) :
      Renamed ρ (.activation n rule count) (.activation m rule count)
  | change {n m : Node} (h : n.Renamed ρ m) (name : String) (old : Option Value) (new : Value) :
      Renamed ρ (.change n name old new) (.change m name old new)
  | error {n m : Node} (h : n.Renamed ρ m) (fault : Fault) :
      Renamed ρ (.error (some n.id) fault) (.error (some m.id) fault)
  | message {n m : Node} (h : n.Renamed ρ m) (text : String) :
      Renamed ρ (.message (some n.id) text) (.message (some m.id) text)

/-- Two traces hold the same entries about nodes that correspond to each other, and have the same
links between them. -/
structure Renamed (ρ : NodeId → NodeId) (t u : Trace) : Prop where
  settings : u.settings = t.settings
  entries : u.toList = t.toList.map (TraceEntry.rename ρ)
  nextSeq : u.nextSeq = t.nextSeq
  depth : u.depth = t.depth
  stack : u.stack = t.stack.map (Frame.rename ρ)
  last : ∀ id, u.lastSeqOf (some (ρ id)) = t.lastSeqOf (some id)
  clock : u.clock = t.clock

namespace Renamed

variable {ρ : NodeId → NodeId} {t u : Trace}

theorem refl (t : Trace) : t.Renamed id t where
  settings := rfl
  entries := by rw [funext TraceEntry.rename_id, List.map_id']
  nextSeq := rfl
  depth := rfl
  stack := (List.map_id t.stack).symm
  last _ := rfl
  clock := rfl

theorem reset (h : u.settings = t.settings) : t.reset.Renamed ρ u.reset := by
  rw [Trace.reset, Trace.reset, h]
  exact ⟨rfl, rfl, rfl, rfl, rfl, fun _ => by simp [lastSeqOf, ofSettings], rfl⟩

/-! ## Recording -/

section Recording

variable (hρ : Function.Injective ρ)

theorem size_eq (h : t.Renamed ρ u) : u.size = t.size := by
  have hlength := congrArg List.length h.entries
  rw [List.length_map] at hlength
  exact (Window.length_toList u.entries).symm.trans
    (hlength.trans (Window.length_toList t.entries))

theorem lastSeqOf_map (h : t.Renamed ρ u) (node : Option NodeId) :
    u.lastSeqOf (node.map ρ) = t.lastSeqOf node := by
  cases node with
  | none => rfl
  | some id => exact h.last id

include hρ

theorem push (h : t.Renamed ρ u) (e : TraceEntry) :
    (t.push e).Renamed ρ (u.push (e.rename ρ)) where
  settings := by rw [settings_push, settings_push, h.settings]
  entries := by
    rw [toList_push, toList_push, capacity, h.settings, h.size_eq, h.entries, List.map_append,
      List.map_singleton, ← capacity]
    split
    · rw [List.map_tail]
    · rfl
  nextSeq := by rw [nextSeq_push, nextSeq_push, h.nextSeq]
  depth := by
    rw [Trace.push, Trace.push]
    split <;> split <;> exact h.depth
  stack := by
    rw [Trace.push, Trace.push]
    split <;> split <;> exact h.stack
  last id := by
    have hnode : (e.rename ρ).node = some (ρ id) ↔ e.node = some id := by
      simp [TraceEntry.rename, hρ.eq_iff]
    rw [lastSeqOf_push, lastSeqOf_push, h.nextSeq, h.last]
    simp only [hnode]
  clock := by
    rw [Trace.push, Trace.push]
    split <;> split <;> exact h.clock

theorem record (h : t.Renamed ρ u) (event : TraceEvent) (node : Option NodeId)
    (message : String) (value : Option Value) :
    (t.record event node message value).Renamed ρ
      (u.record event (node.map ρ) message value) := by
  rw [Trace.record, Trace.record, h.settings, h.nextSeq, h.depth, h.clock, h.lastSeqOf_map]
  exact h.push hρ _

theorem unwind_map (id : NodeId) (stack : List Frame) :
    unwind (ρ id) (stack.map (Frame.rename ρ)) = (unwind id stack).map (Frame.rename ρ) := by
  have htest : (fun f : Frame => f.node != ρ id) ∘ Frame.rename ρ = fun f => f.node != id := by
    funext f
    simp [Frame.rename, bne, hρ.beq_eq]
  rw [unwind, unwind, List.dropWhile_map, htest]
  cases stack.dropWhile fun f => f.node != id <;> rfl

/-- Recordings keep the correspondence. -/
theorem perform (h : t.Renamed ρ u) {r r' : Recording} (hr : r.Renamed ρ r') :
    (t.perform r).Renamed ρ (u.perform r') := by
  have hdescribe {n m : Node} (hnm : n.Renamed ρ m) : u.describe m = t.describe n := by
    rw [describe, describe, h.settings, hnm.brief_eq, hnm.label_eq]
  cases hr with
  | heading title => exact h.record hρ _ none _ _
  | @enter n m hnm =>
    have hrecord := h.record hρ .enter (some n.id) ("enter " ++ n.brief) none
    show Renamed ρ (t.enter n) (u.enter m)
    rw [Trace.enter, Trace.enter, hnm.brief_eq, hnm.id_eq, h.depth]
    exact { hrecord with
      depth := congrArg (· + 1) hrecord.depth
      stack := congrArg (List.cons _) hrecord.stack }
  | @exit n m hnm result =>
    have hbelow : Renamed ρ { t with depth := t.depth - 1, stack := unwind n.id t.stack }
        { u with depth := u.depth - 1, stack := unwind m.id u.stack } :=
      { h with
        depth := congrArg (· - 1) h.depth
        stack := by
          show unwind m.id u.stack = _
          rw [hnm.id_eq, h.stack, unwind_map hρ] }
    have hrecord := hbelow.record hρ .exit (some n.id) ("exit " ++ n.kind.name) (some result)
    show Renamed ρ (t.exit n result) (u.exit m result)
    rw [Trace.exit, Trace.exit, hnm.kind.name_eq]
    rwa [Option.map_some, ← hnm.id_eq] at hrecord
  | @condition n m hnm value =>
    show Renamed ρ (t.condition n value) (u.condition m value)
    rw [Trace.condition, Trace.condition, hdescribe hnm, hnm.id_eq]
    exact h.record hρ _ (some n.id) _ _
  | @decision n m hnm branch =>
    show Renamed ρ (t.decision n branch) (u.decision m branch)
    rw [Trace.decision, Trace.decision, hdescribe hnm, hnm.id_eq]
    exact h.record hρ _ (some n.id) _ _
  | @consequence n m hnm o =>
    show Renamed ρ (t.consequence n o) (u.consequence m o)
    rw [Trace.consequence, Trace.consequence, hnm.id_eq]
    exact h.record hρ _ (some n.id) _ _
  | @activation n m hnm rule count =>
    show Renamed ρ (t.activation n rule count) (u.activation m rule count)
    rw [Trace.activation, Trace.activation, hnm.id_eq]
    exact h.record hρ _ (some n.id) _ _
  | @change n m hnm name old new =>
    show Renamed ρ (t.change n name old new) (u.change m name old new)
    simp only [Trace.change, hnm.id_eq, h.settings]
    exact h.record hρ _ (some n.id) _ _
  | @error n m hnm fault =>
    show Renamed ρ (t.error (some n.id) fault) (u.error (some m.id) fault)
    rw [Trace.error, Trace.error, hnm.id_eq]
    exact h.record hρ _ (some n.id) _ _
  | @message n m hnm text =>
    show Renamed ρ (t.message (some n.id) text) (u.message (some m.id) text)
    rw [Trace.message, Trace.message, hnm.id_eq]
    exact h.record hρ _ (some n.id) _ _

end Recording

/-! ## Looking up entries -/

section Queries

theorem get?_eq (h : t.Renamed ρ u) (seq : Nat) :
    u.get? seq = (t.get? seq).map (TraceEntry.rename ρ) := by
  have hget (i : Nat) : u.entries.get? i = (t.entries.get? i).map (TraceEntry.rename ρ) := by
    rw [← Window.getElem?_toList, ← Window.getElem?_toList, ← List.getElem?_map]
    exact congrArg (·[i]?) h.entries
  rw [Trace.get?, Trace.get?, hget]
  cases t.entries.get? 0 with
  | none => rfl
  | some first =>
    simp only [Option.map_some, hget, TraceEntry.rename]
    split <;> rfl

theorem searchBack_eq (h : t.Renamed ρ u) (kind : TraceKind) (steps : Nat)
    (e : Option TraceEntry) :
    u.searchBack kind steps (e.map (TraceEntry.rename ρ)) =
      (t.searchBack kind steps e).map (TraceEntry.rename ρ) := by
  induction steps generalizing e with
  | zero => cases e <;> rfl
  | succ steps ih =>
    cases e with
    | none => rfl
    | some e =>
      have hprevious : u.previousOf? (e.rename ρ) =
          (t.previousOf? e).map (TraceEntry.rename ρ) := by
        rw [previousOf?, previousOf?, Option.map_bind]
        exact congrArg _ (funext h.get?_eq)
      rw [Option.map_some, searchBack, searchBack, TraceEntry.kind_rename, hprevious, ih]
      split <;> rfl

/-- The last entry of a kind about a node corresponds to the one about the other node. -/
theorem lastOfKind?_eq (h : t.Renamed ρ u) (id : NodeId) (kind : TraceKind) :
    u.lastOfKind? (ρ id) kind = (t.lastOfKind? id kind).map (TraceEntry.rename ρ) := by
  have hlast : u.lastFor? (ρ id) = (t.lastFor? id).map (TraceEntry.rename ρ) := by
    rw [lastFor?, lastFor?, h.last, Option.map_bind]
    exact congrArg _ (funext h.get?_eq)
  have hsize : u.entries.size = t.entries.size := h.size_eq
  rw [lastOfKind?, lastOfKind?, hlast, hsize, h.searchBack_eq]

end Queries

end Renamed

end Trace

end Rulebook
