import Rulebook.Value

/-!
# Entries of a trace

## Main definitions

* `Branch`: the two branches of a decision
* `TraceEvent`, `TraceKind`: what an entry records, with and without its details
* `TraceEntry`: a recorded event
-/

namespace Rulebook

/-- The branches of a decision. -/
inductive Branch where
  | yes
  | no
  deriving DecidableEq

namespace Branch

/-- The branch that a condition leads to. -/
def ofBool (taken : Bool) : Branch :=
  if taken then yes else no

/-- The name of a branch. -/
def name : Branch → String
  | yes => "THEN"
  | no => "ELSE"

/-- The other branch. -/
def other : Branch → Branch
  | yes => no
  | no => yes

end Branch

/-- What an entry records, without its details. -/
inductive TraceKind where
  | heading
  | enter
  | exit
  | condition
  | decision
  | consequence
  | activation
  | change
  | error
  | message
  deriving DecidableEq

/-- The name of a kind of entry. -/
def TraceKind.name : TraceKind → String
  | heading => "section"
  | enter => "enter"
  | exit => "exit"
  | condition => "condition"
  | decision => "decision"
  | consequence => "consequence"
  | activation => "rule_execution"
  | change => "variable_change"
  | error => "error"
  | message => "message"

/-- What an entry records. -/
inductive TraceEvent where
  /-- A new part of the trace. -/
  | heading (title : String)
  /-- The evaluation of a node began. -/
  | enter
  /-- The evaluation of a node ended. -/
  | exit
  | condition (result : Bool)
  | decision (branch : Branch)
  | consequence (action : String) (kind : ConsequenceKind) (success : Bool)
  /-- A rule was activated for the `count`-th time. -/
  | activation (rule : String) (count : Nat)
  /-- A variable was stored. -/
  | change (name : String)
  | error (kind : ErrorKind)
  | message
  deriving DecidableEq

/-- The kind of an event. -/
def TraceEvent.kind : TraceEvent → TraceKind
  | heading _ => .heading
  | enter => .enter
  | exit => .exit
  | condition _ => .condition
  | decision _ => .decision
  | consequence .. => .consequence
  | activation .. => .activation
  | change _ => .change
  | error _ => .error
  | message => .message

/-- A recorded event: its number, the depth of nesting, the time in nanoseconds since the start
unless times are not kept, the node it is about, its message and value, and the number of the
entry before it that is about the same node. -/
structure TraceEntry where
  seq : Nat
  event : TraceEvent
  depth : Nat
  time : Option Nat
  node : Option NodeId
  message : String
  value : Option Value
  previous : Option Nat

/-- The kind of the recorded event. -/
def TraceEntry.kind (e : TraceEntry) : TraceKind :=
  e.event.kind

end Rulebook
