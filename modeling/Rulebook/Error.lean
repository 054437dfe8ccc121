import Rulebook.NodeId
import Rulebook.Span

/-!
# Errors

## Main definitions

* `ErrorKind`: the flat classification of everything that can go wrong
* `Defect`: the ways in which a tree can be ill-formed, or lack what is asked of it
* `Error`: failures of reading, checking, folding, evaluating and configuring
* `Error.message`: the text of an error, given a way to mention nodes
* `Fault`: an error that travels through an evaluation as a value
* `Diagnostic`: an error attached to the stretch of source it is about
-/

namespace Rulebook

/-- Everything that can go wrong, by kind. -/
inductive ErrorKind where
  | source
  | type
  | recursion
  | memory
  | invalidState
  | unsupported
  | arithmetic
  | config
  deriving DecidableEq

/-- The name of a kind of error in messages. -/
def ErrorKind.name : ErrorKind → String
  | source => "syntax"
  | type => "type"
  | recursion => "recursion"
  | memory => "memory"
  | invalidState => "invalid state"
  | unsupported => "unsupported"
  | arithmetic => "arithmetic"
  | config => "config"

/-- What is wrong with a tree, or missing from it. Nodes are named by their variant and their
identity. -/
inductive Defect where
  /-- The tree is deeper than `limit`. -/
  | tooDeep (limit : Nat)
  /-- A node lacks a part that its variant needs. -/
  | missing (variant : String) (node : NodeId) (part : String)
  /-- The weight of a consequence is infinite or not a number. -/
  | weight (node : NodeId)
  /-- A negation has a second operand. -/
  | secondOperand (node : NodeId)
  /-- An operand names a parent that does not own it. -/
  | staleParent (variant : String) (node : NodeId)
  /-- A generic child does not name its owner as parent. -/
  | unlinked (variant : String) (node owner : NodeId)
  /-- No consequence has this action. -/
  | noConsequence (action : String)
  /-- Any other inconsistency, described in words. -/
  | other (detail : String)
  deriving DecidableEq

/-- The text of a defect; `mention` says how a node is referred to. -/
def Defect.message (mention : NodeId → String) : Defect → String
  | tooDeep limit => "tree depth exceeds maximum of " ++ toString limit
  | missing variant node part =>
    variant ++ " " ++ mention node ++ " is missing its " ++ part
  | weight node => "consequence " ++ mention node ++ " has a non-finite weight"
  | secondOperand node => "unary NOT " ++ mention node ++ " has a right operand"
  | staleParent variant node => variant ++ " " ++ mention node ++ " has a stale parent link"
  | unlinked variant node owner =>
    "child " ++ variant ++ " " ++ mention node ++ " does not link back to its parent " ++
      mention owner
  | noConsequence action => "no consequence '" ++ action ++ "' in tree"
  | other detail => detail

/-- A failure of one of the library's activities. -/
inductive Error where
  /-- The source is malformed at a place. -/
  | malformed (detail : String) (span : Span) (line column : Nat)
  /-- Operands do not have the types that an operation needs. -/
  | type (detail : String)
  /-- An activity went deeper than it may. -/
  | tooDeep (activity : String) (limit : Nat)
  /-- A rule was invoked while it was running. -/
  | ruleLoop (rule : String)
  | memory (detail : String)
  /-- A tree is ill-formed. -/
  | invalid (defect : Defect)
  | unsupported (detail : String)
  | arithmetic (detail : String)
  /-- Settings are out of range, or cannot be had at all. -/
  | config (detail : String)
  /-- A text does not hold settings. -/
  | unreadable
  deriving DecidableEq

namespace Error

/-- The kind of an error. -/
def kind : Error → ErrorKind
  | malformed .. => .source
  | type _ => .type
  | tooDeep .. | ruleLoop _ => .recursion
  | memory _ => .memory
  | invalid _ => .invalidState
  | unsupported _ => .unsupported
  | arithmetic _ => .arithmetic
  | config _ | unreadable => .config

/-- The text of an error; `mention` says how a node is referred to. -/
def message (mention : NodeId → String) : Error → String
  | malformed detail _ line column =>
    "syntax error at " ++ toString line ++ ":" ++ toString column ++ ": " ++ detail
  | type detail => "type error: " ++ detail
  | tooDeep activity limit =>
    "maximum recursion depth " ++ toString limit ++ " exceeded in " ++ activity
  | ruleLoop rule => "rule '" ++ rule ++ "' invoked recursively"
  | memory detail => "allocation failure: " ++ detail
  | invalid defect => "invalid state: " ++ defect.message mention
  | unsupported detail => "unsupported: " ++ detail
  | arithmetic detail => "arithmetic error: " ++ detail
  | config detail => "configuration error: " ++ detail
  | unreadable => "configuration error"

/-- The stretch of source that an error is about. -/
def span? : Error → Option Span
  | malformed _ span _ _ => some span
  | _ => none

end Error

/-- An error that travels through an evaluation as a value. -/
structure Fault where
  kind : ErrorKind
  message : String
  deriving DecidableEq

namespace Fault

/-- An error as a value. -/
def ofError (e : Error) : Fault :=
  ⟨e.kind, e.message NodeId.hashed⟩

/-- A fault with its kind. -/
def text (f : Fault) : String :=
  f.kind.name ++ " error: " ++ f.message

end Fault

/-- An error attached to a source text: a headline, and a label for the bytes from `offset` on. -/
structure Diagnostic where
  message : String
  label : String
  offset : Nat
  length : Nat
  deriving DecidableEq

/-- The diagnostic of a malformed source of `size` bytes; the labelled range is clamped to the
source. Other errors have no place in the source. -/
def Diagnostic.ofError? (size : Nat) : Error → Option Diagnostic
  | .malformed detail span line column =>
    let start := min span.start size
    let stop := min (max span.stop start) size
    some ⟨"syntax error at " ++ toString line ++ ":" ++ toString column, detail, start,
      stop - start⟩
  | _ => none

end Rulebook
