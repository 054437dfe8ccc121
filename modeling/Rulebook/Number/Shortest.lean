import Rulebook.Number.Binary

/-!
# The shortest decimal text of a double

A finite double is written with the fewest digits that read back as the same double, and of
those texts with the one nearest to its value; of two equally near ones the larger magnitude is
taken. The text is positional, without an exponent.

## Main definitions

* `Interval`: the numbers that round to one double
* `shortestDigits`: the digits and the power of ten chosen for a positive double
* `positional`: digits and a power of ten, written without an exponent
* `numberText`: the text of a double
-/

namespace Rulebook

/-- A number `value / denominator` with the bounds of the numbers that round to it, over the
same denominator. The bounds themselves belong to it if `closed` holds. -/
structure Interval where
  low : Nat
  value : Nat
  high : Nat
  denominator : Nat
  closed : Bool

namespace Interval

/-- The numbers nearest to `mantissa * 2 ^ exponent` among all doubles. Below a power of two the
neighbouring double is half as far away as above it. A half-way number goes to the double with
the even mantissa. -/
def ofMagnitude (mantissa : Nat) (exponent : Int) : Interval :=
  -- Quarters of the last place make the bounds whole numbers.
  let below := if mantissa = 1 <<< 52 ∧ exponent > -1074 then 1 else 2
  let scale := exponent - 2
  let up := scale.toNat
  { low := (4 * mantissa - below) <<< up
    value := (4 * mantissa) <<< up
    high := (4 * mantissa + 2) <<< up
    denominator := 1 <<< (-scale).toNat
    closed := mantissa % 2 = 0 }

/-- The interval with its numbers multiplied by a power of ten. -/
def scaleTen (i : Interval) (power : Int) : Interval :=
  let times := Nat.pow 10 power.toNat
  { i with
    low := i.low * times
    value := i.value * times
    high := i.high * times
    denominator := i.denominator * Nat.pow 10 (-power).toNat }

/-- Whether the whole number `n` lies in the interval. -/
def holds (i : Interval) (n : Nat) : Bool :=
  let scaled := n * i.denominator
  if i.closed then i.low ≤ scaled && scaled ≤ i.high else i.low < scaled && scaled < i.high

/-- The whole number of the interval that is nearest to its value, the larger one of two, if one
of the value's neighbours lies in it. -/
def nearest? (i : Interval) : Option Nat :=
  let floor := i.value / i.denominator
  let rest := i.value % i.denominator
  -- The neighbours on both sides are enough: if a whole number lies in the interval, one does.
  if rest = 0 then some floor
  else
    match i.holds floor, i.holds (floor + 1) with
    | true, true => if 2 * rest < i.denominator then some floor else some (floor + 1)
    | true, false => some floor
    | false, true => some (floor + 1)
    | false, false => none

end Interval

/-- The number of decimal places in front of the point of `numerator / denominator`; for a
number below one tenth it is minus the number of zeros behind the point. -/
def decimalPlaces (numerator denominator : Nat) : Int :=
  if denominator ≤ numerator then (Nat.toDigits 10 (numerator / denominator)).length
  else
    let zeros := (List.range 400).find? fun k => denominator ≤ numerator * Nat.pow 10 (k + 1)
    Int.negOfNat (zeros.getD 400)

/-- The fewest digits, as a whole number with the power of ten of its last digit, that lie
nearest to a positive double among all doubles. Seventeen digits always do. -/
def shortestDigits (mantissa : Nat) (exponent : Int) : Nat × Int :=
  let interval := Interval.ofMagnitude mantissa exponent
  let places := decimalPlaces interval.value interval.denominator
  let attempt (count : Nat) : Option (Nat × Int) :=
    let power := places - count
    (interval.scaleTen (-power)).nearest?.map (·, power)
  ((List.range 17).findSome? fun k => attempt (k + 1)).getD (0, 0)

/-- Digits and the power of ten of the last one, without an exponent. -/
def positional (digits : List Char) (power : Int) : List Char :=
  if 0 ≤ power then digits ++ List.replicate power.toNat '0'
  else
    let fraction := (-power).toNat
    if fraction < digits.length then
      digits.take (digits.length - fraction) ++ '.' :: digits.drop (digits.length - fraction)
    else
      '0' :: '.' :: List.replicate (fraction - digits.length) '0' ++ digits

/-- The digits with no zero at the end, the power of ten raised to match. -/
def dropFinalZeros (digits : List Char) (power : Int) : List Char × Int :=
  let kept := (digits.reverse.dropWhile (· == '0')).reverse
  (kept, power + (digits.length - kept.length : Nat))

/-- The decimal text of a double. -/
def numberText (x : Float) : String :=
  match Dyadic.ofFloat? x with
  | none => if x.isNaN then "NaN" else if x < 0 then "-inf" else "inf"
  | some d =>
    let sign := if d.negative then "-" else ""
    if d.mantissa = 0 then sign ++ "0"
    else
      let (digits, power) := shortestDigits d.mantissa d.exponent
      let (digits, power) := dropFinalZeros (Nat.toDigits 10 digits) power
      sign ++ String.ofList (positional digits power)

end Rulebook
