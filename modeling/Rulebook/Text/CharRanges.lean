/-!
# Sets of characters given by ranges of code points

## Main definitions

* `CharRanges`: closed ranges of code points, in increasing order
* `CharRanges.contains`: membership of a character
-/

namespace Rulebook

/-- Closed ranges of code points, listed in increasing order. -/
abbrev CharRanges := List (Nat × Nat)

/-- Whether the code point of `c` lies in one of the ranges. -/
def CharRanges.contains (ranges : CharRanges) (c : Char) : Bool :=
  ranges.any fun (low, high) => low ≤ c.toNat && c.toNat ≤ high

end Rulebook
