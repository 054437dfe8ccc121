/-!
# Verdicts and kinds of consequence

## Main definitions

* `Verdict`: the six verdicts that have a keyword of their own
* `Verdict.ofLetter?`: their one-letter shorthand
* `ConsequenceKind`: what a consequence does
-/

namespace Rulebook

/-- The verdicts that the language has keywords for. -/
inductive Verdict where
  | win
  | lose
  | draw
  | skip
  | fail
  | pass
  deriving DecidableEq

namespace Verdict

/-- The keyword of a verdict. -/
def name : Verdict → String
  | win => "win"
  | lose => "lose"
  | draw => "draw"
  | skip => "skip"
  | fail => "fail"
  | pass => "pass"

/-- The verdict that a single capital letter stands for in golf mode. -/
def ofLetter? : String → Option Verdict
  | "W" => some win
  | "L" => some lose
  | "D" => some draw
  | "S" => some skip
  | "F" => some fail
  | "P" => some pass
  | _ => none

end Verdict

/-- What a consequence does: it gives a verdict, performs an action of the host's own, or stores
a variable. -/
inductive ConsequenceKind where
  | verdict (v : Verdict)
  | custom
  | assign
  deriving DecidableEq

/-- The name of a kind of consequence. -/
def ConsequenceKind.name : ConsequenceKind → String
  | verdict v => v.name
  | custom => "custom"
  | assign => "assign"

end Rulebook
