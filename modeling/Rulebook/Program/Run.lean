import Rulebook.Program
import Rulebook.Settings

/-!
# Running a source

## Main definitions

* `Program.ofSource`: reads a source
* `Program.run`: reads a source and evaluates it, if there is no error in it
-/

namespace Rulebook

namespace Program

/-- The program of a source. -/
def ofSource (settings : Settings) (source : String) : Fresh Program :=
  parse settings.scanSettings settings.parseDepth source

/-- Reads and evaluates a source. The first error in it is the result if there is one. -/
def run {σ : Type} (settings : Settings) (source : String) (host : Host σ) (world : σ) :
    Fresh (Except Error (Evaluator.Result σ)) := do
  let program ← ofSource settings source
  match program.errors with
  | e :: _ => return .error e
  | [] => return .ok ((Evaluator.ofSettings settings.evalSettings).run host program.tree world)

end Program

end Rulebook
