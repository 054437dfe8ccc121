import Rulebook.Text.Letter

/-!
# Reading decimal numbers

## Main definitions

* `DecimalText`: the parts of a decimal literal
* `DecimalText.ofChars?`: a text taken apart, if it is a decimal literal
* `DecimalText.toFloat`: the nearest double
* `readDecimal?`: the double that a decimal literal denotes
* `readNumber?`: the double that a text denotes, with a sign and the names of infinity and NaN
-/

namespace Rulebook

/-- The parts of a decimal literal: digits before and behind the point, and the exponent. -/
structure DecimalText where
  whole : List Char
  fraction : List Char
  exponentNegative : Bool
  exponent : List Char
  deriving DecidableEq

namespace DecimalText

/-- The exponent part of a literal: nothing, or `e`, an optional sign and at least one digit. -/
def exponentOfChars? : List Char → Option (Bool × List Char)
  | [] => some (false, [])
  | e :: rest =>
    if e = 'e' ∨ e = 'E' then
      let (negative, digits) :=
        match rest with
        | '-' :: digits => (true, digits)
        | '+' :: digits => (false, digits)
        | digits => (false, digits)
      if digits ≠ [] ∧ digits.all isDecimalDigit then some (negative, digits) else none
    else none

/-- Takes a decimal literal apart: digits with an optional point, at least one digit, then an
optional exponent. -/
def ofChars? (text : List Char) : Option DecimalText :=
  let whole := text.takeWhile isDecimalDigit
  let afterWhole := text.dropWhile isDecimalDigit
  let (fraction, afterFraction) :=
    match afterWhole with
    | '.' :: rest => (rest.takeWhile isDecimalDigit, rest.dropWhile isDecimalDigit)
    | rest => ([], rest)
  if whole = [] ∧ fraction = [] then none
  else (exponentOfChars? afterFraction).map fun (negative, exponent) =>
    ⟨whole, fraction, negative, exponent⟩

/-- The digits in front of the exponent as one whole number. -/
def mantissa (d : DecimalText) : Nat :=
  numberOfDigits 10 (d.whole ++ d.fraction)

/-- The power of ten of the last digit of the mantissa. -/
def power (d : DecimalText) : Int :=
  let written : Int := numberOfDigits 10 d.exponent
  (if d.exponentNegative then -written else written) - d.fraction.length

/-- The double nearest to the literal. Beyond `10 ^ 400` and below `10 ^ -400` nothing but the
order of magnitude matters: such numbers overflow to infinity or vanish. -/
def toFloat (d : DecimalText) : Float :=
  let mantissa := d.mantissa
  let power := d.power
  let magnitude := power + (Nat.toDigits 10 mantissa).length
  if mantissa = 0 then 0.0
  -- The bounds keep the powers of ten that are computed small.
  else if 400 < magnitude then 1.0 / 0.0
  else if magnitude < -400 then 0.0
  else Float.ofScientific mantissa (power < 0) power.natAbs

end DecimalText

/-- The double that a decimal literal denotes. -/
def readDecimal? (text : List Char) : Option Float :=
  (DecimalText.ofChars? text).map DecimalText.toFloat

/-- The double that a text without a sign denotes: a decimal literal, or a name in letters of
either case. -/
def readMagnitude? (text : List Char) : Option Float :=
  let name := text.map Char.toLower
  if name = "nan".toList then some (0.0 / 0.0)
  else if name = "inf".toList ∨ name = "infinity".toList then some (1.0 / 0.0)
  else readDecimal? text

/-- The double that a text denotes. All texts that doubles are written as can be read. -/
def readNumber? (text : String) : Option Float :=
  match text.toList with
  | '-' :: rest => (readMagnitude? rest).map fun x => -x
  | '+' :: rest => readMagnitude? rest
  | rest => readMagnitude? rest

end Rulebook
