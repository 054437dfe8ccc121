import Rulebook.Number.Read

/-!
# Reading TOML texts

## Main definitions

* `Toml.Reader`: computations that take characters from the front of a text, or fail
* `Toml.Reader.digits`: digits with underscores between them
* `Toml.Reader.separated`: a row of things with a separator between them
* `Toml.Reader.blanks`, `Toml.Reader.lineEnd`, `Toml.Reader.filler`: what stands between things
-/

namespace Rulebook

namespace Toml

/-- A computation that takes characters from the front of a text, or fails. -/
abbrev Reader := StateT (List Char) Option

namespace Reader

variable {α : Type}

/-! ## Characters -/

section Characters

/-- Fails. -/
def fail : Reader α := fun _ => none

/-- The next character, which is not taken. -/
def peek? : Reader (Option Char) :=
  return (← get).head?

/-- Takes the next character. -/
def any : Reader Char
  | [] => none
  | c :: rest => some (c, rest)

/-- Takes the given text. -/
def text (s : String) : Reader Unit := fun cs =>
  if s.toList.isPrefixOf cs then some ((), cs.drop s.length) else none

/-- Takes the given text if it comes next. -/
def accept (s : String) : Reader Bool := fun cs =>
  if s.toList.isPrefixOf cs then some (true, cs.drop s.length) else some (false, cs)

/-- Takes one of the given characters if it comes next. -/
def acceptOneOf (chars : List Char) : Reader Bool
  | [] => some (false, [])
  | c :: rest => if c ∈ chars then some (true, rest) else some (false, c :: rest)

/-- Takes characters as long as they pass a test. -/
def takeWhile (test : Char → Bool) : Reader (List Char) := fun cs =>
  some (cs.span test)

/-- Takes the given number of characters, all of which must pass a test. -/
def exactly (count : Nat) (test : Char → Bool) : Reader (List Char) := fun cs =>
  let taken := cs.take count
  if taken.length = count ∧ taken.all test then some (taken, cs.drop count) else none

/-- The result of `r` if it succeeds; otherwise nothing is taken. -/
def attempt (r : Reader α) : Reader (Option α) := fun cs =>
  match r cs with
  | some (a, rest) => some (some a, rest)
  | none => some (none, cs)

/-- Succeeds with a value that is there. -/
def ofOption : Option α → Reader α
  | some a => pure a
  | none => fail

/-- An upper bound on how often something can be taken. -/
def remaining : Reader Nat :=
  return (← get).length + 1

end Characters

/-! ## Digits -/

section Digits

/-- Groups of digits behind the first one, an underscore in front of each. -/
def digitGroups (test : Char → Bool) : Nat → Reader (List Char)
  | 0 => fail
  | fuel + 1 => do
    let first ← takeWhile test
    if first.isEmpty then fail
    else if ← accept "_" then return first ++ (← digitGroups test fuel)
    else return first

/-- At least one digit; single underscores between digits do not count. -/
def digits (test : Char → Bool) : Reader (List Char) := do
  digitGroups test (← remaining)

/-- A number of a fixed count of digits within bounds. -/
def fixed (count low high : Nat) : Reader Nat := do
  let n := numberOfDigits 10 (← exactly count isDecimalDigit)
  if low ≤ n ∧ n ≤ high then return n else fail

end Digits

/-! ## Rows -/

section Rows

/-- The items of a row behind the first; an item that cannot be read ends the row in front of its
separator. -/
def separatedMore (separator : Reader Unit) (item : Reader α) : Nat → Reader (List α)
  | 0 => fail
  | fuel + 1 => do
    match ← attempt (do separator; item) with
    | some a => return a :: (← separatedMore separator item fuel)
    | none => return []

/-- The items of a row, which may be empty. -/
def separated (separator : Reader Unit) (item : Reader α) : Reader (List α) := do
  match ← attempt item with
  | some a => return a :: (← separatedMore separator item (← remaining))
  | none => return []

end Rows

/-! ## Blanks, comments and line ends -/

section Blanks

/-- Spaces and tabs. -/
def isSpaceOrTab (c : Char) : Bool :=
  c == ' ' || c == '\t'

/-- Characters of comments: all but control characters. -/
def isPlain (c : Char) : Bool :=
  c == '\t' || (0x20 ≤ c.toNat && c.toNat != 0x7F)

/-- Takes blanks. -/
def blanks : Reader Unit := do
  let _ ← takeWhile isSpaceOrTab

/-- Takes a line break, of one or two characters. -/
def newline : Reader Unit := do
  if ← accept "\n" then return
  text "\r\n"

/-- Takes a comment if one comes next. -/
def comment : Reader Unit := do
  if ← accept "#" then
    let _ ← takeWhile isPlain

/-- Takes blanks and a comment up to the end of the line. -/
def lineEnd : Reader Unit := do
  blanks
  comment
  if (← peek?).isSome then newline

/-- Takes blanks and line breaks. -/
def emptyLines : Nat → Reader Unit
  | 0 => fail
  | fuel + 1 => do
    blanks
    match ← attempt newline with
    | some _ => emptyLines fuel
    | none => return

/-- Takes blanks, line breaks and comments; a comment ends with a line break. -/
def fillerLines : Nat → Reader Unit
  | 0 => fail
  | fuel + 1 => do
    blanks
    match ← peek? with
    | some '#' =>
      comment
      newline
      fillerLines fuel
    | some '\n' | some '\r' =>
      newline
      fillerLines fuel
    | _ => return

/-- Takes whatever may stand between the items of an array. -/
def filler : Reader Unit := do
  fillerLines (← remaining)

end Blanks

end Reader

end Toml

end Rulebook
