import Rulebook.Evaluation.Run
import Rulebook.Program.Item

/-!
# Programs

## Main definitions

* `Program`: the tree of a source, with the errors found in it
* `Program.parse`: the program of a source
-/

namespace Rulebook

/-- The tree of a source, whose root is a block, with the errors found in the source: those of
single tokens first, then those of productions. -/
structure Program where
  tree : Node
  errors : List Error

/-- The program of a source, whose tokens are read as they are needed. There is a tree even if there
are errors. Identities are issued from the given one on; the first that was not issued comes second.
-/
def Program.parse (scan : ScanSettings) (maxDepth : Nat) (source : String) : Fresh Program :=
  fun nextId =>
    let start := ParseState.ofTokens (TokenStream.ofSource scan source) nextId
    match Parse.root ⟨scan.golf, maxDepth⟩ start with
    | .ok tree s => (⟨tree, s.rest.errors.toList ++ s.errors.toList⟩, s.nextId)
    | .error e s => (⟨default, s.rest.errors.toList ++ s.errors.toList ++ [e]⟩, s.nextId)

end Rulebook
