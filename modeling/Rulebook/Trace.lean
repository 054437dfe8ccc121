import Rulebook.Node.Printer
import Rulebook.Trace.Entry
import Rulebook.Trace.Window
import Std.Data.TreeMap

/-!
# Traces

A trace is a log of what an evaluation does. It has a capacity: when that is reached, the oldest
entry goes before the newest is added. Each entry knows the entry before it that is about the same
node, so the history of a node can be followed backwards.

In golf mode a trace keeps neither times nor values, describes nodes briefly, and is shorter.

## Main definitions

* `TraceSettings`, `Trace`: how much is kept, and what was recorded
* `Trace.heading` to `Trace.message`: recording one event each
* `Trace.get?`, `Trace.lastFor?`, `Trace.previousOf?`, `Trace.lastOfKind?`: looking up entries
* `Trace.next`, `Trace.rewind`: reading entries in order
-/

namespace Rulebook

/-- How much a trace keeps. -/
structure TraceSettings where
  golf : Bool := false
  /-- The capacity, if it is not the usual one of the mode. -/
  limit : Option Nat := none
  deriving DecidableEq

/-- The number of entries kept; at least one. -/
def TraceSettings.capacity (s : TraceSettings) : Nat :=
  max 1 (s.limit.getD (if s.golf then 1000 else 10000))

/-- A node whose evaluation is under way, and the depth at which it began. -/
structure Frame where
  node : NodeId
  label : String
  depth : Nat
  deriving DecidableEq

/-- A log of events. `stack` holds the nodes being evaluated, the innermost first; `lastSeq` the
number of the last entry of each node; `cursor` the position of the entry to read next; and
`clock` the time to stamp on entries, in nanoseconds since the start. -/
structure Trace where
  settings : TraceSettings := {}
  entries : Window TraceEntry := {}
  nextSeq : Nat := 0
  depth : Nat := 0
  stack : List Frame := []
  lastSeq : Std.TreeMap Nat Nat := ∅
  cursor : Nat := 0
  evicted : Nat := 0
  clock : Nat := 0

namespace Trace

/-- An empty trace. -/
def ofSettings (settings : TraceSettings) : Trace := { settings }

/-- Forgets everything but the settings. -/
def reset (t : Trace) : Trace :=
  ofSettings t.settings

/-- The number of entries kept. -/
def capacity (t : Trace) : Nat :=
  t.settings.capacity

/-- The number of entries held. -/
def size (t : Trace) : Nat :=
  t.entries.size

/-- The entries held, the oldest one first. -/
def toList (t : Trace) : List TraceEntry :=
  t.entries.toList

/-! ## Recording -/

section Recording

/-- The number of the last entry that is about a node. -/
def lastSeqOf (t : Trace) (node : Option NodeId) : Option Nat :=
  node.bind fun id => t.lastSeq[id.number]?

/-- Lets the oldest entry go. The cursor moves down with the entries that stay. -/
def evict (t : Trace) : Trace :=
  { t with
    entries := t.entries.dropOldest t.capacity
    cursor := t.cursor - 1
    evicted := t.evicted + 1 }

/-- Adds an entry behind the others, as the last one of its node. -/
def append (t : Trace) (entry : TraceEntry) : Trace :=
  { t with
    entries := t.entries.append entry
    nextSeq := t.nextSeq + 1
    lastSeq :=
      match entry.node with
      | some id => t.lastSeq.insert id.number t.nextSeq
      | none => t.lastSeq }

/-- Adds an entry. If the trace is full, the oldest entry goes first. -/
def push (t : Trace) (entry : TraceEntry) : Trace :=
  if t.capacity ≤ t.entries.size then t.evict.append entry else t.append entry

/-- Records an event, with the number, depth and time that the trace is at. -/
def record (t : Trace) (event : TraceEvent) (node : Option NodeId) (message : String)
    (value : Option Value) : Trace :=
  t.push
    { seq := t.nextSeq
      event
      depth := t.depth
      time := if t.settings.golf then none else some t.clock
      node
      message
      value := if t.settings.golf then none else value
      previous := t.lastSeqOf node }

/-- The description of a node: its whole expression, or in golf mode the node alone. -/
def describe (t : Trace) (n : Node) : String :=
  if t.settings.golf then n.brief else n.label

/-- Begins a new part. -/
def heading (t : Trace) (title : String) : Trace :=
  t.record (.heading title) none ("== " ++ title ++ " ==") none

/-- The evaluation of a node begins. -/
def enter (t : Trace) (n : Node) : Trace :=
  let label := n.brief
  let frame : Frame := ⟨n.id, label, t.depth⟩
  let t := t.record .enter (some n.id) ("enter " ++ label) none
  { t with stack := frame :: t.stack, depth := t.depth + 1 }

/-- The frames outside the innermost one of a node; all frames if there is none. -/
def unwind (id : NodeId) (stack : List Frame) : List Frame :=
  match stack.dropWhile (·.node != id) with
  | [] => stack
  | _ :: outer => outer

/-- The evaluation of a node ends with a result. -/
def exit (t : Trace) (n : Node) (result : Value) : Trace :=
  { t with depth := t.depth - 1, stack := unwind n.id t.stack }.record .exit (some n.id)
    ("exit " ++ n.kind.name) (some result)

/-- A condition had a value. -/
def condition (t : Trace) (n : Node) (value : Value) : Trace :=
  t.record (.condition value.isTruthy) (some n.id)
    ("condition " ++ t.describe n ++ " is " ++ toString value.isTruthy) (some value)

/-- A decision took a branch. -/
def decision (t : Trace) (n : Node) (branch : Branch) : Trace :=
  t.record (.decision branch) (some n.id)
    ("took " ++ branch.name ++ " branch of " ++ t.describe n) none

/-- Whether an outcome was a success, in words. -/
def status (success : Bool) : String :=
  if success then "succeeded" else "failed"

/-- A consequence came out. -/
def consequence (t : Trace) (n : Node) (o : Outcome Value) : Trace :=
  let detail := (o.message.map (": " ++ ·)).getD ""
  t.record (.consequence o.action o.kind o.success) (some n.id)
    (o.kind.name ++ " " ++ o.action ++ " " ++ status o.success ++ detail) (some o.value)

/-- A rule was activated for the `count`-th time. -/
def activation (t : Trace) (n : Node) (rule : String) (count : Nat) : Trace :=
  t.record (.activation rule count) (some n.id)
    ("rule " ++ rule ++ " activation #" ++ toString count) none

/-- A variable changed. Old values are not mentioned in golf mode. -/
def change (t : Trace) (n : Node) (name : String) (old : Option Value) (new : Value) : Trace :=
  let message :=
    match old with
    | some old =>
      if t.settings.golf then name ++ " changed"
      else name ++ ": " ++ old.text ++ " -> " ++ new.text
    | none => name ++ " changed"
  t.record (.change name) (some n.id) message (some new)

/-- Something went wrong. -/
def error (t : Trace) (node : Option NodeId) (fault : Fault) : Trace :=
  t.record (.error fault.kind) node fault.message none

/-- A remark. -/
def message (t : Trace) (node : Option NodeId) (text : String) : Trace :=
  t.record .message node text none

end Recording

/-! ## Looking up entries -/

section Queries

/-- The entry with a number, unless it was evicted. -/
def get? (t : Trace) (seq : Nat) : Option TraceEntry :=
  match t.entries.get? 0 with
  -- Numbers have no gaps, so the distance to the oldest entry is the position.
  | some first => if seq < first.seq then none else t.entries.get? (seq - first.seq)
  | none => none

/-- The last entry that is about a node. -/
def lastFor? (t : Trace) (id : NodeId) : Option TraceEntry :=
  (t.lastSeqOf (some id)).bind t.get?

/-- The entry before `e` that is about the same node. -/
def previousOf? (t : Trace) (e : TraceEntry) : Option TraceEntry :=
  e.previous.bind t.get?

/-- The first entry of a kind on the way back from `e`, which leads over at most `steps`
entries. -/
def searchBack (t : Trace) (kind : TraceKind) : Nat → Option TraceEntry → Option TraceEntry
  | _, none => none
  | 0, some _ => none
  | steps + 1, some e =>
    if e.kind = kind then some e else t.searchBack kind steps (t.previousOf? e)

/-- The last entry of a kind that is about a node. The way back leads over each entry at most
once. -/
def lastOfKind? (t : Trace) (id : NodeId) (kind : TraceKind) : Option TraceEntry :=
  t.searchBack kind t.entries.size (t.lastFor? id)

/-- The nodes whose evaluation is under way, the outermost first. -/
def frames (t : Trace) : List Frame :=
  t.stack.reverse

/-- The decisions in the order in which they were made. -/
def decisionPath (t : Trace) : List NodeId :=
  t.toList.filterMap fun e => if e.kind = .decision then e.node else none

end Queries

/-! ## Reading in order -/

section Reading

/-- Goes back to the oldest entry. -/
def rewind (t : Trace) : Trace :=
  { t with cursor := 0 }

/-- Whether there are entries left to read. -/
def hasMore (t : Trace) : Bool :=
  t.cursor < t.entries.size

/-- Reads the next entry. -/
def next (t : Trace) : Option TraceEntry × Trace :=
  match t.entries.get? t.cursor with
  | some e => (some e, { t with cursor := t.cursor + 1 })
  | none => (none, t)

end Reading

end Trace

end Rulebook
