import Rulebook.Number.Binary

/-!
# The remainder of doubles

## Main definitions

* `remainder`: what is left of `x` after taking away whole multiples of `y`, exactly

The quotient is rounded towards zero, so the remainder has the sign of `x` and is smaller than
`y` in magnitude. It needs no rounding: it is a multiple of the finer unit of the two operands
and no larger than either.
-/

namespace Rulebook

/-- The exact remainder of `x` by `y`, with the sign of `x`. It is undefined (NaN) when `y` is
zero, when `x` is infinite and when either is NaN; an infinite `y` leaves `x` alone. -/
def remainder (x y : Float) : Float :=
  match Dyadic.ofFloat? x, Dyadic.ofFloat? y with
  | some a, some b =>
    if b.mantissa = 0 then 0.0 / 0.0
    else
      let unit := min a.exponent b.exponent
      let whole (d : Dyadic) : Nat := d.mantissa <<< (d.exponent - unit).toNat
      Dyadic.toFloat ⟨a.negative, whole a % whole b, unit⟩
  | some _, none => if y.isNaN then y else x
  | none, _ => 0.0 / 0.0

end Rulebook
