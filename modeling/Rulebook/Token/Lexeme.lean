import Rulebook.Number.Read
import Rulebook.Text.Blank
import Rulebook.Token

/-!
# Lexemes

The first lexeme of a text: what it is and how many characters it has.

## Main definitions

* `Lexeme`: a kind of token and a number of characters
* `StringScan`: a string literal read so far
* `Lexeme.ofChars`: the first lexeme of a text

## Main results

* `Lexeme.width_pos`: the first lexeme of a nonempty text is not empty
-/

namespace Rulebook

/-- A kind of token with the number of characters it takes. -/
structure Lexeme where
  kind : TokenKind
  width : Nat

/-! ## String literals -/

/-- What the next character of a string literal is read as. -/
inductive StringState where
  | plain
  | backslash
  | unicodeOpen
  | unicodeDigits (digits : List Char)
  | closed
  deriving DecidableEq

/-- A string literal read so far: the characters it denotes, the last one first, and the first
bad escape in it. -/
structure StringScan where
  value : List Char := []
  fault : Option LexicalFault := none
  state : StringState := .plain

namespace StringScan

/-- Adds a character to the denoted text. -/
def push (s : StringScan) (c : Char) : StringScan :=
  { s with value := c :: s.value, state := .plain }

/-- Notes a bad escape. Only the first one is kept. -/
def blame (s : StringScan) (fault : LexicalFault) : StringScan :=
  { s with fault := s.fault.or (some fault), state := .plain }

/-- A character that continues no escape. -/
def plainStep (s : StringScan) (quote c : Char) : StringScan :=
  if c = quote then { s with state := .closed }
  else if c = '\\' then { s with state := .backslash }
  else s.push c

/-- The character behind a backslash. -/
def escapeStep (s : StringScan) (c : Char) : StringScan :=
  match c with
  | 'n' => s.push '\n'
  | 't' => s.push '\t'
  | 'r' => s.push '\r'
  | '0' => s.push '\x00'
  | '\\' => s.push '\\'
  | '"' => s.push '"'
  | '\'' => s.push '\''
  | 'u' => { s with state := .unicodeOpen }
  | c => s.blame (.unknownEscape c)

/-- The end of a code point escape: at least one digit, and a number that is a code point. -/
def unicodeStep (s : StringScan) (digits : List Char) : StringScan :=
  let n := numberOfDigits 16 digits
  if digits ≠ [] ∧ n.isValidChar then s.push (Char.ofNat n) else s.blame .unicodeEscape

/-- Reads one character. A code point escape has at most six digits between braces; the
character that breaks one off is read as if the escape were over. -/
def step (s : StringScan) (quote c : Char) : StringScan :=
  match s.state with
  | .plain => s.plainStep quote c
  | .backslash => s.escapeStep c
  | .unicodeOpen =>
    if c = '\x7b' then { s with state := .unicodeDigits [] }
    else (s.blame .unicodeEscape).plainStep quote c
  | .unicodeDigits digits =>
    if isHexDigit c && digits.length < 6 then { s with state := .unicodeDigits (digits ++ [c]) }
    else if c = '\x7d' then s.unicodeStep digits
    else (s.blame .unicodeEscape).plainStep quote c
  | .closed => s

/-- What a closed literal is. -/
def kind (s : StringScan) : TokenKind :=
  match s.fault with
  | some fault => .error fault
  | none => .string (String.ofList s.value.reverse)

/-- Reads up to the closing quote; `width` characters came before. -/
def run (quote : Char) (s : StringScan) (width : Nat) : List Char → Lexeme
  | [] => ⟨.error .unterminatedString, width⟩
  | c :: rest =>
    let s' := s.step quote c
    if s'.state = .closed then ⟨s'.kind, width + 1⟩ else run quote s' (width + 1) rest

end StringScan

namespace Lexeme

/-! ## Comments and blanks -/

/-- The number of characters up to and including the end of a block comment. -/
def blockEnd? (width : Nat) : List Char → Option Nat
  | [] => none
  | [_] => none
  | '*' :: '/' :: _ => some (width + 2)
  | _ :: rest => blockEnd? (width + 1) rest

/-- A block comment; `rest` are the characters behind its opening. -/
def blockComment (rest : List Char) : Lexeme :=
  match blockEnd? 2 rest with
  | some width => ⟨.comment, width⟩
  | none => ⟨.error .unterminatedComment, 2 + rest.length⟩

/-- A comment up to the end of the line; `rest` are the characters behind the first. -/
def lineComment (rest : List Char) : Lexeme :=
  ⟨.comment, 1 + (rest.takeWhile (· ≠ '\n')).length⟩

/-- Blanks up to the end of the line; `rest` are the characters behind the first. -/
def blankRun (rest : List Char) : Lexeme :=
  ⟨.blanks, 1 + (rest.takeWhile fun c => c ≠ '\n' && isBlank c).length⟩

/-! ## Numbers -/

/-- A whole number in a base, behind its two-character mark. It must fit in 64 bits. -/
def radixNumber (base : Nat) (radix : String) (isDigit : Char → Bool) (rest : List Char) :
    Lexeme :=
  let digits := rest.takeWhile isDigit
  let n := numberOfDigits base digits
  let kind : TokenKind :=
    if digits = [] then .error (.emptyRadix radix)
    else if n < UInt64.size then .number n.toUInt64.toFloat
    else .error (.radixRange radix (String.ofList digits))
  ⟨kind, 2 + digits.length⟩

/-- Digits with an optional fraction, at the front of a text. A point counts only if a digit
follows it. -/
def mantissa (cs : List Char) : List Char :=
  let whole := cs.takeWhile isDecimalDigit
  match cs.dropWhile isDecimalDigit with
  | '.' :: c :: rest =>
    if isDecimalDigit c then whole ++ '.' :: c :: rest.takeWhile isDecimalDigit else whole
  | _ => whole

/-- The mark of an exponent and its sign, at the front of a text; empty if there is none. -/
def exponentMark : List Char → List Char
  | e :: rest =>
    if e = 'e' ∨ e = 'E' then
      match rest with
      | '+' :: _ => [e, '+']
      | '-' :: _ => [e, '-']
      | _ => [e]
    else []
  | [] => []

/-- A decimal number at the front of a text that starts with a digit, or with a point and a
digit. -/
def decimalNumber (cs : List Char) : Lexeme :=
  let front := mantissa cs
  let mark := exponentMark (cs.drop front.length)
  let digits := ((cs.drop front.length).drop mark.length).takeWhile isDecimalDigit
  if mark = [] then
    ⟨numberKind front, front.length⟩
  else if digits = [] then
    ⟨.error (.exponent (String.ofList (front ++ mark))), front.length + mark.length⟩
  else
    ⟨numberKind (front ++ mark ++ digits), front.length + mark.length + digits.length⟩
where
  numberKind (text : List Char) : TokenKind :=
    match readDecimal? text with
    | some x => .number x
    | none => .error (.number (String.ofList text))

/-- A number: hexadecimal behind `0x`, binary behind `0b`, decimal otherwise. -/
def number (c : Char) (rest : List Char) : Lexeme :=
  match c, rest with
  | '0', 'x' :: digits | '0', 'X' :: digits => radixNumber 16 "hex" isHexDigit digits
  | '0', 'b' :: digits | '0', 'B' :: digits => radixNumber 2 "binary" isBinaryDigit digits
  | c, rest => decimalNumber (c :: rest)

/-! ## Words and symbols -/

/-- The characters that continue a word. -/
def isWordChar (c : Char) : Bool :=
  isLetter c || isNumeric c || c == '_'

/-- A word: a reserved one, or a name. -/
def word (c : Char) (rest : List Char) : Lexeme :=
  let tail := rest.takeWhile isWordChar
  let text := String.ofList (c :: tail)
  ⟨(TokenKind.ofWord? text).getD (.identifier text), 1 + tail.length⟩

/-- An operator or delimiter. The longest one counts; `?:` is one only in golf mode. -/
def symbol? (golf : Bool) (c : Char) (next : Option Char) : Option Lexeme :=
  match c with
  | '(' => some ⟨.lparen, 1⟩
  | ')' => some ⟨.rparen, 1⟩
  | '\x7b' => some ⟨.lbrace, 1⟩
  | '\x7d' => some ⟨.rbrace, 1⟩
  | ',' => some ⟨.comma, 1⟩
  | ';' => some ⟨.semicolon, 1⟩
  | ':' => some ⟨.colon, 1⟩
  | '+' => some ⟨.plus, 1⟩
  | '*' => some ⟨.star, 1⟩
  | '/' => some ⟨.slash, 1⟩
  | '%' => some ⟨.percent, 1⟩
  | '?' => some (if golf && next == some ':' then ⟨.elvis, 2⟩ else ⟨.question, 1⟩)
  | '-' => some (if next = some '>' then ⟨.arrow, 2⟩ else ⟨.minus, 1⟩)
  | '=' =>
    some (if next = some '=' then ⟨.eqEq, 2⟩
      else if next = some '>' then ⟨.fatArrow, 2⟩ else ⟨.assign, 1⟩)
  | '!' => some (if next = some '=' then ⟨.bangEq, 2⟩ else ⟨.bang, 1⟩)
  | '<' => some (if next = some '=' then ⟨.ltEq, 2⟩ else ⟨.lt, 1⟩)
  | '>' =>
    some (if next = some '=' then ⟨.gtEq, 2⟩
      else if next = some '>' then ⟨.chain, 2⟩ else ⟨.gt, 1⟩)
  | '&' => some (if next = some '&' then ⟨.and, 2⟩ else ⟨.error (.lone '&'), 1⟩)
  | '|' => some (if next = some '|' then ⟨.or, 2⟩ else ⟨.error (.lone '|'), 1⟩)
  | _ => none

/-- Whether a comment starts with these characters. -/
def startsComment (c : Char) (next : Option Char) : Bool :=
  c == '#' || (c == '/' && (next == some '/' || next == some '*'))

/-- Whether a number starts with these characters. -/
def startsNumber (c : Char) (next : Option Char) : Bool :=
  isDecimalDigit c || (c == '.' && next.any isDecimalDigit)

/-- A lexeme that is neither blank nor a comment. -/
def significant (golf : Bool) (c : Char) (rest : List Char) : Lexeme :=
  match symbol? golf c rest.head? with
  | some lexeme => lexeme
  | none =>
    if c = '"' ∨ c = '\'' then StringScan.run c {} 1 rest
    else if startsNumber c rest.head? then number c rest
    else if isLetter c || c == '_' then word c rest
    else ⟨.error (.unexpected c), 1⟩

/-- The first lexeme of a text. -/
def ofChars (golf : Bool) : List Char → Lexeme
  | [] => ⟨.eof, 0⟩
  | c :: rest =>
    if c = '\n' then ⟨.lineEnd, 1⟩
    else if isBlank c then blankRun rest
    else if startsComment c rest.head? then
      if c = '/' ∧ rest.head? = some '*' then blockComment rest.tail else lineComment rest
    else significant golf c rest

/-! ## Widths -/

theorem StringScan.le_width_run (quote : Char) (s : StringScan) (width : Nat) (cs : List Char) :
    width ≤ (s.run quote width cs).width := by
  induction cs generalizing s width with
  | nil => simp [StringScan.run]
  | cons c rest ih =>
    simp only [StringScan.run]
    split
    · simp
    · exact Nat.le_of_succ_le (ih _ _)

theorem le_of_blockEnd? {width n : Nat} {cs : List Char} (h : blockEnd? width cs = some n) :
    width ≤ n := by
  fun_induction blockEnd? width cs with
  | case1 => simp at h
  | case2 => simp at h
  | case3 => simp at h; omega
  | case4 _ _ _ _ _ ih => exact Nat.le_of_succ_le (ih h)

theorem width_blockComment_pos (rest : List Char) : 0 < (blockComment rest).width := by
  simp only [blockComment]
  split
  · next h => exact Nat.lt_of_lt_of_le (by omega) (le_of_blockEnd? h)
  · exact Nat.lt_of_lt_of_le (by omega) (Nat.le_add_right 2 rest.length)

theorem mantissa_ne_nil {c : Char} {rest : List Char} (h : startsNumber c rest.head?) :
    mantissa (c :: rest) ≠ [] := by
  simp only [startsNumber, Bool.or_eq_true, Bool.and_eq_true, beq_iff_eq] at h
  by_cases hd : isDecimalDigit c
  · -- The digit itself is in the whole part.
    simp only [mantissa, List.takeWhile_cons, hd, if_true]
    split
    · split <;> simp
    · simp
  · -- Otherwise the point is, with the digit behind it.
    obtain ⟨rfl, hn⟩ := h.resolve_left hd
    cases rest with
    | nil => simp at hn
    | cons d rest =>
      simp only [List.head?_cons, Option.any_some] at hn
      simp [mantissa, hd, hn]

theorem width_number_pos {c : Char} {rest : List Char} (h : startsNumber c rest.head?) :
    0 < (number c rest).width := by
  have hm := List.length_pos_iff.2 (mantissa_ne_nil h)
  simp only [number]
  split <;> simp only [radixNumber, decimalNumber]
  any_goals omega
  split
  · exact hm
  · split <;> simp only <;> omega

theorem width_symbol?_pos {golf : Bool} {c : Char} {next : Option Char} {l : Lexeme}
    (h : symbol? golf c next = some l) : 0 < l.width := by
  unfold symbol? at h
  split at h <;> simp only [Option.some.injEq, reduceCtorEq] at h
  all_goals subst h
  all_goals repeat' split
  all_goals exact Nat.succ_pos _

theorem width_significant_pos (golf : Bool) (c : Char) (rest : List Char) :
    0 < (significant golf c rest).width := by
  simp only [significant]
  split
  · next h => exact width_symbol?_pos h
  · split
    · exact StringScan.le_width_run _ _ _ _
    · split
      · next h => exact width_number_pos h
      · split
        · simp only [word]; omega
        · simp

/-- The first lexeme of a nonempty text is not empty. -/
theorem width_pos (golf : Bool) (c : Char) (rest : List Char) :
    0 < (ofChars golf (c :: rest)).width := by
  simp only [ofChars]
  split
  · simp
  · split
    · simp only [blankRun]; omega
    · split
      · split
        · exact width_blockComment_pos _
        · simp only [lineComment]; omega
      · exact width_significant_pos golf c rest

end Lexeme

end Rulebook
