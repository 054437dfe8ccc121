import Rulebook.Node.Index
import Rulebook.Trace

/-!
# Explanations

An explanation tells from a trace which way an evaluation went, or why a consequence did not run.
It depends on the tree and on the entries of the trace alone.

## Main definitions

* `Question`: why, or why not a given action
* `Explanation.blockers`: what kept a node from being evaluated
* `Explanation.lines`: the lines of the answer to a question
* `explain`: the answer as a text
* `Explanation.Ends`: the answer is found in finitely many steps
-/

namespace Rulebook

/-- What an explanation is asked for: the path that was taken, or the reason why the consequence
with an action did not run. -/
inductive Question where
  | why
  | whyNot (action : String)
  deriving DecidableEq

/-- The consequence that a question about an action is about. -/
def findTarget (root : Node) (action : String) : Except Error Node :=
  match root.findConsequence? action with
  | some target => .ok target
  | none => .error (.invalid (.noConsequence action))

namespace Explanation

variable (index : NodeIndex) (trace : Trace)

/-- The description of a node of the tree. -/
def labelOf (id : Option NodeId) : String :=
  match id.bind index.get? with
  | some n => n.label
  | none => "<unknown node>"

/-- A heading above items, or above a remark if there are none. -/
def titled (title remark : String) (items : List String) : List String :=
  "" :: title :: if items.isEmpty then ["  (" ++ remark ++ ")"] else items

/-- The items whose key was not met before, in order. -/
def firstOfEach {α : Type} (key : α → NodeId) (met : List NodeId) : List α → List α
  | [] => []
  | a :: rest =>
    if met.contains (key a) then firstOfEach key met rest
    else a :: firstOfEach key (key a :: met) rest

/-! ## What happened -/

/-- The decisions in order. -/
def decisionSteps : List String :=
  let steps := trace.toList.filterMap fun e =>
    match e.event with
    | .decision branch => some (labelOf index e.node ++ " -> " ++ branch.name)
    | _ => none
  steps.zipIdx.map fun (step, i) => "  " ++ toString (i + 1) ++ ". " ++ step

/-- The conditions, each by its first result. -/
def conditionResults : List String :=
  let results := trace.toList.filterMap fun e =>
    match e.event, e.node with
    | .condition result, some id => some (id, result, e.value)
    | _, _ => none
  (firstOfEach Prod.fst [] results).map fun (id, result, value) =>
    "  - " ++ labelOf index (some id) ++ " was " ++ toString result ++
      ((value.map fun v => " (value " ++ v.text ++ ")").getD "")

/-- The consequences in order. -/
def consequenceResults : List String :=
  trace.toList.filterMap fun e =>
    match e.event with
    | .consequence action kind success =>
      some ("  - " ++ action ++ " (" ++ kind.name ++ ") " ++ Trace.status success)
    | _ => none

/-- Notes the count of a rule, in the place where the rule was noted first. -/
def noteRule (name : String) (count : Nat) : List (String × Nat) → List (String × Nat)
  | [] => [(name, count)]
  | (seen, k) :: rest =>
    if seen = name then (seen, count) :: rest else (seen, k) :: noteRule name count rest

/-- The activated rules in the order of their first activation, each with its last count. -/
def ruleCounts : List (String × Nat) :=
  trace.toList.foldl (fun counts e =>
    match e.event with
    | .activation name count => noteRule name count counts
    | _ => counts) []

/-- How often each rule was activated. -/
def ruleReport : List String :=
  (ruleCounts trace).map fun (name, count) =>
    "  - rule " ++ name ++ " (" ++ toString count ++ " activation" ++
      (if count = 1 then "" else "s") ++ ")"

/-! ## What did not happen -/

/-- A branch of a decision. -/
def branchNode? (decision : Node) (branch : Branch) : Option Node :=
  match decision.kind, branch with
  | .decision _ yes _, .yes => yes
  | .decision _ _ no, .no => no
  | _, _ => none

/-- The branch of a decision that leads to a child; none leads to the condition. -/
def branchTo? (decision : Node) (child : NodeId) : Option Branch :=
  [Branch.yes, Branch.no].find? fun branch =>
    (branchNode? decision branch).any (·.id == child)

/-- The consequences of a tree, in preorder. -/
def consequenceTexts (n : Node) : List String :=
  n.preorder.filterMap fun (m, _) => m.kind.consequence?.map fun _ => m.text

/-- The branch that each decision did not take, judged by its first entry, with the consequences
in it. -/
def alternatives : List String :=
  let decisions := trace.toList.filterMap fun e =>
    match e.event, e.node with
    | .decision branch, some id => some (id, branch)
    | _, _ => none
  (firstOfEach Prod.fst [] decisions).filterMap fun (id, branch) =>
    (index.get? id).map fun decision =>
      let actions := ((branchNode? decision branch.other).map consequenceTexts).getD []
      "  - " ++ decision.label ++ ": " ++ branch.other.name ++
        if actions.isEmpty then " branch has no consequences"
        else " branch would have run " ++ ", ".intercalate actions

/-- The errors in order. -/
def errorReport : List String :=
  trace.toList.filterMap fun e =>
    match e.event with
    | .error kind =>
      some ("  - " ++ kind.name ++ " error: " ++ e.message ++
        if e.node.isSome then " at " ++ labelOf index e.node else "")
    | _ => none

/-! ## Why a node was not reached -/

/-- What a condition was found to be, in brackets. -/
def conditionRemark (condition : Option Node) : String :=
  match (condition.bind fun c => trace.lastOfKind? c.id .condition).map TraceEntry.event with
  | some (.condition result) => " (condition was " ++ toString result ++ ")"
  | _ => ""

/-- What a decision says about a child in one of its branches. -/
def decisionBlocker? (decision : Node) (condition : Option Node) (child : NodeId) :
    Option String :=
  match branchTo? decision child with
  | none => none
  | some needed =>
    match trace.lastOfKind? decision.id .decision with
    | some e =>
      match e.event with
      | .decision taken =>
        if taken = needed then none
        else some ("  - " ++ decision.label ++ " took " ++ taken.name ++ ", but " ++ needed.name ++
          " was needed" ++ conditionRemark trace condition)
      | _ => none
    -- Its entry may also have been evicted, which looks the same.
    | none => some ("  - " ++ decision.label ++ " was never decided")

/-- How an owner kept its child from being evaluated, if it did: a decision took the other branch
or was not reached, a rule was not activated, or an operator left the child out. -/
def blocker? (owner : Node) (child : NodeId) : Option String :=
  match owner.kind with
  | .decision condition _ _ => decisionBlocker? trace owner condition child
  | .rule head _ =>
    if (trace.lastOfKind? owner.id .activation).isNone then
      some ("  - rule " ++ head.name ++ " was " ++
        if head.isActive then "never activated" else "inactive")
    else none
  | .logic .. | .chain .. =>
    if (trace.lastOfKind? owner.id .enter).isSome && (trace.lastOfKind? child .enter).isNone then
      some ("  - " ++ owner.label ++ " short-circuited before reaching it")
    else none
  | _ => none

/-- What kept the last node of a path from being evaluated, owner by owner. -/
def blockers (path : List Node) : List String :=
  (path.zip path.tail).filterMap fun (owner, child) => blocker? trace owner child.id

/-- Why a consequence did not run. -/
def whyNot (target : Node) : List String :=
  if (trace.lastOfKind? target.id .consequence).isSome then
    ["  It did run; see the consequences below."]
  else
    match index.path? target.id with
    | none => ["  Target is not part of the evaluated tree."]
    | some path =>
      match blockers trace path with
      | [] =>
        if (trace.lastOfKind? target.id .enter).isSome then
          ["  It was reached but did not complete."]
        else ["  Evaluation stopped before reaching it."]
      | blocked => blocked

/-! ## The whole answer -/

/-- What happened in an evaluation. -/
def account : List String :=
  titled "Decision path:" "no decisions" (decisionSteps index trace) ++
    titled "Condition evaluations:" "none" (conditionResults index trace) ++
    titled "Consequences executed:" "none" (consequenceResults trace) ++
    titled "Rule activations:" "none" (ruleReport trace)

/-- What did not happen, and what went wrong. -/
def omissions : List String :=
  titled "What would have happened:" "no alternatives recorded" (alternatives index trace) ++
    titled "Errors:" "none" (errorReport index trace)

/-- The lines of the answer to a question about a tree and the trace of its evaluation. -/
def lines (root : Node) (trace : Trace) (question : Question) : Except Error (List String) :=
  let index := NodeIndex.ofNode root
  match question with
  | .why => .ok ("Why: evaluation path" :: account index trace)
  | .whyNot action => do
    let target ← findTarget root action
    return ("Why not: " ++ target.label) :: whyNot index trace target ++
      account index trace ++ omissions index trace

/-- The answer to a question is found in finitely many steps. All that may go on for ever is the
climb from a consequence that did not run, in trees whose identities are not distinct. -/
def Ends (root : Node) (trace : Trace) : Question → Prop
  | .why => True
  | .whyNot action => ∀ target, root.findConsequence? action = some target →
    trace.lastOfKind? target.id .consequence = none → (NodeIndex.ofNode root).Ends target.id

end Explanation

/-- The answer to a question about a tree and the trace of its evaluation, provided that it is found
in finitely many steps; see `Explanation.Ends`. -/
def explain (root : Node) (trace : Trace) (question : Question) : Except Error String :=
  (Explanation.lines root trace question).map fun ls => String.join (ls.map (· ++ "\n"))

end Rulebook
