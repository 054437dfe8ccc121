import Rulebook.Evaluation.State
import Rulebook.Token.Cursor

/-!
# Settings

## Main definitions

* `Settings`: everything that can be chosen about reading and evaluating a source
* `Settings.scanSettings`, `Settings.evalSettings`: the settings of the parts, which the overall
  golf switch turns on together
* `Settings.validate`: limits must not be zero
-/

namespace Rulebook

/-- How sources are read and evaluated. -/
structure Settings where
  /-- Golf mode for reading and for evaluating. -/
  golf : Bool := false
  scan : ScanSettings := {}
  /-- How many productions of the grammar may be nested. -/
  parseDepth : Nat := 256
  eval : EvalSettings := {}
  deriving DecidableEq

namespace Settings

/-- The settings of golf mode. -/
def golfed : Settings := { golf := true }

/-- How sources are taken apart into tokens. -/
def scanSettings (s : Settings) : ScanSettings :=
  { s.scan with golf := s.golf || s.scan.golf }

/-- How trees are evaluated. -/
def evalSettings (s : Settings) : EvalSettings :=
  { s.eval with golf := s.golf || s.eval.golf }

/-- Refuses limits of zero. -/
def validate (s : Settings) : Except Error Unit :=
  if s.parseDepth = 0 then .error (.config "parser.max_recursion_depth must be positive")
  else if s.eval.maxDepth = 0 then .error (.config "eval.max_recursion_depth must be positive")
  else if s.eval.traceLimit = some 0 then
    .error (.config "eval.trace_max_entries must be positive")
  else .ok ()

end Settings

end Rulebook
