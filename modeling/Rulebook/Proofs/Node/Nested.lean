import Mathlib.Data.String.Basic
import Rulebook.Proofs.Node.Check

/-!
# Spans that nest

A node that was read from a source has a line and a span. Others have neither, and nothing is said
about their spans, although located nodes may stand below them.

## Main definitions

* `Span.Within`, `Span.Proper`: stretches inside another one, and stretches between characters
* `Node.Spans`: what holds of the spans of all located nodes of a tree
* `Node.Nested`: spans are inside those of the nodes above, and siblings stand in order
* `Node.Laid`: some trees stand one behind the other in a stretch of a source

## Main results

* `Node.Laid.append`: rows that stand one behind the other make up a row
* `Node.Laid.plant`: a new node takes over trees that stand inside its span
-/

namespace Rulebook

/-! ## Stretches -/

namespace Span

variable {a b c : Span} {source : String}

/-- A stretch is inside another one. -/
structure Within (a b : Span) : Prop where
  start : b.start ≤ a.start
  stop : a.stop ≤ b.stop

theorem Within.refl (a : Span) : a.Within a :=
  ⟨Nat.le_refl _, Nat.le_refl _⟩

theorem Within.trans (h : a.Within b) (h' : b.Within c) : a.Within c :=
  ⟨h'.start.trans h.start, h.stop.trans h'.stop⟩

theorem within_merge_left (a b : Span) : a.Within (a.merge b) :=
  ⟨Nat.min_le_left _ _, Nat.le_max_left _ _⟩

theorem within_merge_right (a b : Span) : b.Within (a.merge b) :=
  ⟨Nat.min_le_right _ _, Nat.le_max_right _ _⟩

theorem Within.merge (h : a.Within c) (h' : b.Within c) : (a.merge b).Within c :=
  ⟨Nat.le_min.2 ⟨h.start, h'.start⟩, Nat.max_le.2 ⟨h.stop, h'.stop⟩⟩

/-- What stands between two stretches is inside their union. -/
theorem Within.between (hstart : a.start ≤ c.start) (hstop : c.stop ≤ b.stop) :
    c.Within (a.merge b) :=
  ⟨(Nat.min_le_left _ _).trans hstart, hstop.trans (Nat.le_max_right _ _)⟩

/-- A stretch of a source that begins and ends between characters. -/
structure Proper (source : String) (a : Span) : Prop where
  le : a.start ≤ a.stop
  start : String.Pos.Raw.IsValid source ⟨a.start⟩
  stop : String.Pos.Raw.IsValid source ⟨a.stop⟩

theorem Proper.stop_le (h : a.Proper source) : a.stop ≤ source.utf8ByteSize :=
  h.stop.le_rawEndPos

theorem Proper.merge (h : a.Proper source) (h' : b.Proper source) : (a.merge b).Proper source where
  le := (Nat.min_le_left _ _).trans (h.le.trans (Nat.le_max_left _ _))
  start := by
    rcases Nat.le_total a.start b.start with hle | hle
    · rw [merge_start, Nat.min_eq_left hle]
      exact h.start
    · rw [merge_start, Nat.min_eq_right hle]
      exact h'.start
  stop := by
    rcases Nat.le_total a.stop b.stop with hle | hle
    · rw [merge_stop, Nat.max_eq_right hle]
      exact h'.stop
    · rw [merge_stop, Nat.max_eq_left hle]
      exact h.stop

theorem proper_zero (source : String) : Proper source {} :=
  ⟨Nat.le_refl _, String.Pos.Raw.isValid_zero, String.Pos.Raw.isValid_zero⟩

end Span

namespace Node

/-! ## The spans of a tree -/

section Spans

variable {P Q : Span → Prop} {n : Node}

/-- What holds of the spans of all nodes of a tree that have a line. -/
def Spans (n : Node) (P : Span → Prop) : Prop :=
  ∀ m ∈ n.nodes, m.line ≠ 0 → P m.span

theorem spans_iff : n.Spans P ↔ (n.line ≠ 0 → P n.span) ∧ ∀ c ∈ n.childNodes, c.Spans P :=
  forall_mem_nodes_iff

theorem Spans.imp (h : n.Spans P) (hPQ : ∀ s, P s → Q s) : n.Spans Q :=
  fun m hm hline => hPQ _ (h m hm hline)

theorem spans_withParent {p : NodeId} : (n.withParent p).Spans P ↔ n.Spans P := by
  rw [spans_iff, spans_iff]
  rfl

/-- All of one tree ends before another one begins. -/
def Precedes (n m : Node) : Prop :=
  n.Spans fun a => m.Spans fun b => a.stop ≤ b.start

theorem Precedes.withParent {m : Node} (h : n.Precedes m) (p : NodeId) :
    (n.withParent p).Precedes (m.withParent p) :=
  spans_withParent.2 (h.imp fun _ => spans_withParent.2)

theorem Precedes.le {m : Node} (h : n.Precedes m) (hn : n.line ≠ 0) (hm : m.line ≠ 0) :
    n.span.stop ≤ m.span.start :=
  h n n.mem_nodes_self hn m m.mem_nodes_self hm

/-- Trees in two stretches, one behind the other. -/
theorem Precedes.of_within {m : Node} {a b : Span} (hn : n.Spans (·.Within a))
    (hm : m.Spans (·.Within b)) (hle : a.stop ≤ b.start) : n.Precedes m :=
  hn.imp fun _ ha => hm.imp fun _ hb => ha.stop.trans (hle.trans hb.start)

end Spans

/-! ## Nested spans -/

section Nested

variable {source : String} {n : Node}

/-- A node that has a line stands between characters of a source, and the nodes below it are inside
its span; its children stand one behind the other. -/
structure Holds (source : String) (n : Node) : Prop where
  proper : n.line ≠ 0 → n.span.Proper source
  below : n.line ≠ 0 → n.Spans (·.Within n.span)
  ordered : n.childNodes.Pairwise Precedes

/-- The spans of a tree nest. -/
def Nested (source : String) (n : Node) : Prop :=
  ∀ m ∈ n.nodes, m.Holds source

theorem nested_iff : n.Nested source ↔ n.Holds source ∧ ∀ c ∈ n.childNodes, c.Nested source :=
  forall_mem_nodes_iff

theorem nested_withParent {p : NodeId} : (n.withParent p).Nested source ↔ n.Nested source := by
  rw [nested_iff, nested_iff]
  refine and_congr_left fun _ => ⟨fun h => ⟨h.proper, fun hline => ?_, h.ordered⟩,
    fun h => ⟨h.proper, fun hline => ?_, h.ordered⟩⟩
  · exact spans_withParent.1 (h.below hline)
  · exact spans_withParent.2 (h.below hline)

end Nested

/-! ## Rows of trees -/

section Rows

variable {source : String} {a b c : Span} {ms ns : List Node} {n : Node}

/-- Some trees whose spans nest stand one behind the other in a stretch of a source. -/
structure Laid (source : String) (a : Span) (ns : List Node) : Prop where
  nested : ∀ n ∈ ns, n.Nested source
  ordered : ns.Pairwise Precedes
  within : ∀ n ∈ ns, n.Spans (·.Within a)

theorem Laid.nil (source : String) (a : Span) : Laid source a [] :=
  ⟨List.forall_mem_nil _, .nil, List.forall_mem_nil _⟩

theorem Laid.mono (h : Laid source a ns) (hab : a.Within b) : Laid source b ns :=
  ⟨h.nested, h.ordered, fun n hn => (h.within n hn).imp fun _ hs => hs.trans hab⟩

/-- Rows that stand one behind the other make up a row. -/
theorem Laid.append (hms : Laid source a ms) (hns : Laid source b ns) (hle : a.stop ≤ b.start)
    (hac : a.Within c) (hbc : b.Within c) : Laid source c (ms ++ ns) where
  nested := List.forall_mem_append.2 ⟨hms.nested, hns.nested⟩
  ordered := List.pairwise_append.2 ⟨hms.ordered, hns.ordered, fun m hm n hn =>
    .of_within (hms.within m hm) (hns.within n hn) hle⟩
  within := List.forall_mem_append.2 ⟨(hms.mono hac).within, (hns.mono hbc).within⟩

/-- The first trees of a row become the children of a new node, which has no place yet. -/
theorem Laid.join {kind : Kind Node} {children : List Node}
    (h : Laid source a (kind.operands ++ children ++ ns)) (id : NodeId) :
    Laid source a (linked id kind children :: ns) := by
  obtain ⟨hparts, hns, hbefore⟩ := List.pairwise_append.1 h.ordered
  obtain ⟨hnested, hnested'⟩ := List.forall_mem_append.1 h.nested
  obtain ⟨hwithin, hwithin'⟩ := List.forall_mem_append.1 h.within
  have hspans {P : Span → Prop} (hP : ∀ c ∈ kind.operands ++ children, c.Spans P) :
      (linked id kind children).Spans P := by
    rw [spans_iff, childNodes_linked, List.forall_mem_map]
    exact ⟨fun h => absurd rfl h, fun c hc => spans_withParent.2 (hP c hc)⟩
  have hnode : (linked id kind children).Nested source := by
    rw [nested_iff, childNodes_linked, List.forall_mem_map]
    refine ⟨⟨fun h => absurd rfl h, fun h => absurd rfl h, ?_⟩, fun c hc => ?_⟩
    · rw [childNodes_linked, List.pairwise_map]
      exact hparts.imp fun hcd => hcd.withParent id
    · exact nested_withParent.2 (hnested c hc)
  exact ⟨List.forall_mem_cons.2 ⟨hnode, hnested'⟩,
    List.pairwise_cons.2 ⟨fun m hm => hspans fun c hc => hbefore c hc m hm, hns⟩,
    List.forall_mem_cons.2 ⟨hspans hwithin, hwithin'⟩⟩

/-- A tree gets a wider span. -/
theorem Laid.withSpan (h : Laid source a [n]) (hab : a.Within b) (hb : b.Proper source)
    (line : Nat) : Laid source b [n.withSpan b line] := by
  obtain ⟨hn, hbelow⟩ := nested_iff.1 (h.nested n (List.mem_singleton_self n))
  have hspans : (n.withSpan b line).Spans (·.Within b) := by
    refine spans_iff.2 ⟨fun _ => .refl b, ?_⟩
    exact (spans_iff.1 ((h.mono hab).within n (List.mem_singleton_self n))).2
  refine ⟨List.forall_mem_singleton.2 ?_, List.pairwise_singleton _ _,
    List.forall_mem_singleton.2 hspans⟩
  exact nested_iff.2 ⟨⟨fun _ => hb, fun _ => hspans, hn.ordered⟩, hbelow⟩

/-- A new node takes over trees that stand inside its span. -/
theorem Laid.plant {kind : Kind Node} {children : List Node}
    (h : Laid source a (kind.operands ++ children)) (hab : a.Within b) (hb : b.Proper source)
    (id : NodeId) (line : Nat) : Laid source b [(linked id kind children).withSpan b line] := by
  rw [← List.append_nil (kind.operands ++ children)] at h
  exact (h.join id).withSpan hab hb line

end Rows

end Node

end Rulebook
