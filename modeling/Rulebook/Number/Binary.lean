/-!
# Finite doubles as integers times powers of two

## Main definitions

* `Dyadic`: a sign, a natural number and a power of two
* `Dyadic.ofFloat?`: the exact value of a finite double
* `Dyadic.toFloat`: the double of a value that a double can hold

A double has 53 significant bits, and its smallest unit is `2 ^ -1074`.
-/

namespace Rulebook

/-- The number `± mantissa * 2 ^ exponent`. -/
structure Dyadic where
  negative : Bool
  mantissa : Nat
  exponent : Int
  deriving DecidableEq

namespace Dyadic

/-- The mantissa and the exponent of the finite double with these bits, the sign left out.
Exponent field `0` holds the subnormal numbers, which have no hidden leading bit. -/
def magnitudeOfBits (bits : UInt64) : Nat × Int :=
  let field := ((bits >>> 52) &&& 0x7FF).toNat
  let fraction := (bits &&& 0xFFFFFFFFFFFFF).toNat
  if field = 0 then (fraction, -1074) else (fraction + 1 <<< 52, (field : Int) - 1075)

/-- The exact value of a double, if it is finite. -/
def ofFloat? (x : Float) : Option Dyadic :=
  if x.isFinite then
    let (mantissa, exponent) := magnitudeOfBits x.toBits
    some ⟨x.toBits >>> 63 == 1, mantissa, exponent⟩
  else
    none

/-- The mantissa with its leading bit moved to position 52, as far as the smallest exponent
allows. -/
def normalize (mantissa : Nat) (exponent : Int) : Nat × Int :=
  let shift := min (52 - mantissa.log2) (exponent + 1074).toNat
  (mantissa <<< shift, exponent - shift)

/-- The double with the value of `d`, for a mantissa below `2 ^ 53` and an exponent between
`-1074` and `971`. -/
def toFloat (d : Dyadic) : Float :=
  let (mantissa, exponent) := normalize d.mantissa d.exponent
  let field := if mantissa < 1 <<< 52 then 0 else (exponent + 1075).toNat
  let sign : Nat := if d.negative then 1 <<< 63 else 0
  Float.ofBits (sign + field <<< 52 + mantissa % 1 <<< 52).toUInt64

end Dyadic

end Rulebook
