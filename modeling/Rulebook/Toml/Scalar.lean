import Rulebook.Toml.Item
import Rulebook.Toml.Reader

/-!
# TOML strings, numbers and dates

## Main definitions

* `Toml.quotedString`, `Toml.string`: strings on one line, and strings of either kind
* `Toml.integer`, `Toml.float`: numbers
* `Toml.moment`: dates and times of day
* `Toml.scalar`: everything that is neither an array nor a table
-/

namespace Rulebook

namespace Toml

open Reader

/-! ## Strings -/

section Strings

/-- The character with a code that is written in the given number of hexadecimal digits. -/
def codePoint (count : Nat) : Reader Char := do
  let n := numberOfDigits 16 (← exactly count isHexDigit)
  if n.isValidChar then return Char.ofNat n else fail

/-- The character that an escape stands for, behind its backslash. -/
def escaped : Reader Char := do
  match ← any with
  | 'b' => return '\x08'
  | 't' => return '\t'
  | 'n' => return '\n'
  | 'f' => return '\x0c'
  | 'r' => return '\r'
  | '"' => return '"'
  | '\\' => return '\\'
  | 'u' => codePoint 4
  | 'U' => codePoint 8
  | _ => fail

/-- The rest of a string on one line, up to its quote. Escapes count in strings between double
quotes only. -/
def lineString (quote : Char) : Nat → Reader (List Char)
  | 0 => fail
  | fuel + 1 => do
    let c ← any
    if c = quote then return []
    else if c = '\\' ∧ quote = '"' then
      let c ← escaped
      return c :: (← lineString quote fuel)
    else if isPlain c then return c :: (← lineString quote fuel)
    else fail

/-- The quotes at the end of a string of several lines: three close it, and up to two in front
of them belong to it. Fewer than three are text. The second component tells whether the string is
closed. -/
def quoteRun (quote : Char) : Reader (List Char × Bool) := do
  let run ← takeWhile (· == quote)
  if run.length < 3 then return (run, false)
  else if run.length ≤ 5 then return (run.drop 3, true)
  else fail

/-- A line break that is escaped, with all blanks and line breaks around it. -/
def escapedBreak : Reader Unit := do
  text "\\"
  blanks
  newline
  emptyLines (← remaining)

/-- The rest of a string of several lines, up to its three quotes. -/
def blockString (quote : Char) : Nat → Reader (List Char)
  | 0 => fail
  | fuel + 1 => do
    match ← peek? with
    | none => fail
    | some c =>
      if c = quote then
        let (kept, closed) ← quoteRun quote
        if closed then return kept
        return kept ++ (← blockString quote fuel)
      else if c = '\\' ∧ quote = '"' then
        match ← attempt escapedBreak with
        | some _ => blockString quote fuel
        | none =>
          let _ ← any
          let c ← escaped
          return c :: (← blockString quote fuel)
      else if c = '\n' ∨ c = '\r' then
        newline
        return '\n' :: (← blockString quote fuel)
      else if isPlain c then
        let _ ← any
        return c :: (← blockString quote fuel)
      else fail

/-- A string on one line between the given quotes. -/
def quotedString (quote : Char) : Reader String := do
  text quote.toString
  return String.ofList (← lineString quote (← remaining))

/-- A string between the given quotes. Three quotes open a string of several lines; a line break
right behind them does not belong to it. -/
def string (quote : Char) : Reader String := do
  if ← accept (String.ofList [quote, quote, quote]) then
    let _ ← attempt newline
    return String.ofList (← blockString quote (← remaining))
  else
    quotedString quote

end Strings

/-! ## Numbers -/

section Numbers

/-- An optional sign; whether it is a minus. -/
def sign : Reader Bool := do
  if ← accept "-" then return true
  let _ ← accept "+"
  return false

/-- Digits of a whole number without needless zeros in front. -/
def wholeDigits : Reader (List Char) := do
  if ← accept "0" then return ['0'] else digits isDecimalDigit

/-- An integer of 64 bits. -/
def bounded (n : Int) : Reader Item :=
  if Int64.minValue.toInt ≤ n ∧ n ≤ Int64.maxValue.toInt then return .integer n else fail

/-- Digits to a base. -/
def radixInteger (base : Nat) (test : Char → Bool) : Reader Item := do
  bounded (numberOfDigits base (← digits test))

/-- Whether a character is an octal digit. -/
def isOctalDigit (c : Char) : Bool :=
  '0' ≤ c && c ≤ '7'

/-- An integer. One to another base than ten has no sign. -/
def integer : Reader Item := do
  if ← accept "0x" then radixInteger 16 isHexDigit
  else if ← accept "0o" then radixInteger 8 isOctalDigit
  else if ← accept "0b" then radixInteger 2 isBinaryDigit
  else
    let negative ← sign
    let n := numberOfDigits 10 (← wholeDigits)
    bounded (if negative then -n else n)

/-- The exponent of a number behind its `e`: whether it is negative, and its digits. -/
def exponent : Reader (Bool × List Char) := do
  let negative ← sign
  return (negative, ← digits isDecimalDigit)

/-- A number with a point or an exponent. One that is too large is refused, unless it is
negative. -/
def decimalFloat : Reader Item := do
  let negative ← sign
  let whole ← wholeDigits
  let fraction ← if ← accept "." then digits isDecimalDigit else pure []
  let exp ← if ← acceptOneOf ['e', 'E'] then some <$> exponent else pure none
  if fraction.isEmpty && exp.isNone then fail
  else
    let (expNegative, expDigits) := exp.getD (false, [])
    let x := DecimalText.toFloat ⟨whole, fraction, expNegative, expDigits⟩
    if negative then return .float (-x)
    else if x.isFinite then return .float x
    else fail

/-- Infinity or no number, by name. -/
def namedFloat : Reader Item := do
  let negative ← sign
  if ← accept "inf" then return .float (if negative then -(1.0 / 0.0) else 1.0 / 0.0)
  else
    text "nan"
    return .float (0.0 / 0.0)

end Numbers

/-! ## Dates -/

section Dates

/-- The number of days of a month. -/
def daysOfMonth (year month : Nat) : Nat :=
  if month = 2 then
    if year % 4 = 0 ∧ (year % 100 ≠ 0 ∨ year % 400 = 0) then 29 else 28
  else if month = 4 ∨ month = 6 ∨ month = 9 ∨ month = 11 then 30
  else 31

/-- A date. -/
def date : Reader Unit := do
  let year ← fixed 4 0 9999
  text "-"
  let month ← fixed 2 1 12
  text "-"
  let _ ← fixed 2 1 (daysOfMonth year month)

/-- Hours and minutes. -/
def hourMinute : Reader Unit := do
  let _ ← fixed 2 0 23
  text ":"
  let _ ← fixed 2 0 59

/-- The decimals of a second, any number of them but at least one. -/
def secondFraction : Reader Unit := do
  text "."
  if (← takeWhile isDecimalDigit).isEmpty then fail

/-- A time of day. A minute may have a leap second. -/
def timeOfDay : Reader Unit := do
  hourMinute
  text ":"
  let _ ← fixed 2 0 60
  let _ ← attempt secondFraction

/-- The distance of a local time from universal time. -/
def offset : Reader Unit := do
  if ← acceptOneOf ['Z', 'z'] then return
  if ← acceptOneOf ['+', '-'] then hourMinute else fail

/-- The time of day behind a date. -/
def timeBehindDate : Reader Unit := do
  if ← acceptOneOf ['T', 't', ' '] then
    timeOfDay
    let _ ← attempt offset
  else fail

/-- A date, a time of day, or both. -/
def moment : Reader Item := do
  let before ← get
  match ← attempt date with
  | some _ =>
    let _ ← attempt timeBehindDate
  | none => timeOfDay
  let after ← get
  return .moment (String.ofList (before.take (before.length - after.length)))

end Dates

/-- The result of the first reader that succeeds. -/
def firstOf {α : Type} (readers : List (Reader α)) : Reader α := fun cs =>
  readers.findSome? (· cs)

/-- A string, a truth value, a date or a number. -/
def scalar : Reader Item := do
  match ← peek? with
  | some '"' => .string <$> string '"'
  | some '\'' => .string <$> string '\''
  | some 't' =>
    text "true"
    return .bool true
  | some 'f' =>
    text "false"
    return .bool false
  | _ => firstOf [moment, decimalFloat, namedFloat, integer]

end Toml

end Rulebook
