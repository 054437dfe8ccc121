/-!
# Stretches of a source text

## Main definitions

* `Span`: a half-open range of byte offsets
* `Span.merge`: the smallest span that covers two spans
-/

namespace Rulebook

/-- The bytes from `start` up to `stop`. -/
structure Span where
  start : Nat := 0
  stop : Nat := 0
  deriving DecidableEq, Inhabited

namespace Span

/-- The smallest span that covers both. -/
def merge (a b : Span) : Span :=
  ⟨min a.start b.start, max a.stop b.stop⟩

/-- The number of bytes. -/
def length (s : Span) : Nat :=
  s.stop - s.start

@[simp] theorem merge_start (a b : Span) : (a.merge b).start = min a.start b.start := rfl

@[simp] theorem merge_stop (a b : Span) : (a.merge b).stop = max a.stop b.stop := rfl

end Span

end Rulebook
