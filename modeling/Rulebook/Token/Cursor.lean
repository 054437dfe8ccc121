import Rulebook.Token.Lexeme

/-!
# Reading tokens one at a time

## Main definitions

* `Place`: a byte offset with its line and column
* `ScanSettings`: which characters count as trivia to skip, and whether golf mode is on
* `Cursor`: a place in a source with the text that follows it
* `Cursor.next`: the next token that is not skipped

## Main results

* `Cursor.length_rest_next_lt`: reading a token other than the last one shortens the rest
-/

namespace Rulebook

/-- A place between two characters: bytes before it, and its line and column from one. -/
structure Place where
  offset : Nat := 0
  line : Nat := 1
  column : Nat := 1
  deriving DecidableEq

namespace Place

/-- The place behind a character. -/
def after (p : Place) (c : Char) : Place :=
  if c = '\n' then ⟨p.offset + c.utf8Size, p.line + 1, 1⟩
  else ⟨p.offset + c.utf8Size, p.line, p.column + 1⟩

/-- The place behind a text. -/
def afterAll (p : Place) (cs : List Char) : Place :=
  cs.foldl after p

end Place

/-- How a source is taken apart into tokens. -/
structure ScanSettings where
  /-- Whether single letters stand for verdicts and `?:` is an operator. -/
  golf : Bool := false
  skipBlanks : Bool := true
  skipComments : Bool := true
  deriving DecidableEq

namespace ScanSettings

/-- The settings of golf mode. -/
def golfed : ScanSettings := { golf := true }

/-- Whether tokens of a kind are left out. -/
def skips (s : ScanSettings) : TokenKind → Bool
  | .blanks | .lineEnd => s.skipBlanks
  | .comment => s.skipComments
  | _ => false

end ScanSettings

/-- A place in a source with the text that follows it. -/
structure Cursor where
  place : Place := {}
  rest : List Char

namespace Cursor

/-- The lexeme at the cursor. -/
def lexeme (c : Cursor) (golf : Bool) : Lexeme :=
  Lexeme.ofChars golf c.rest

/-- The token at the cursor, trivia included. -/
def token (c : Cursor) (golf : Bool) : Token :=
  let lexeme := c.lexeme golf
  let chars := c.rest.take lexeme.width
  { kind := lexeme.kind
    text := String.ofList chars
    span := ⟨c.place.offset, (c.place.afterAll chars).offset⟩
    line := c.place.line
    column := c.place.column }

/-- The cursor behind the token at it. -/
def past (c : Cursor) (golf : Bool) : Cursor :=
  let width := (c.lexeme golf).width
  ⟨c.place.afterAll (c.rest.take width), c.rest.drop width⟩

theorem length_rest_past_lt {c : Cursor} {golf : Bool} (h : c.rest ≠ []) :
    (c.past golf).rest.length < c.rest.length := by
  obtain ⟨place, rest⟩ := c
  cases rest with
  | nil => exact absurd rfl h
  | cons d rest =>
    have := Lexeme.width_pos golf d rest
    simp only [past, lexeme, List.length_drop, List.length_cons]
    omega

theorem rest_ne_nil_of_kind_ne {c : Cursor} {golf : Bool} (h : (c.token golf).kind ≠ .eof) :
    c.rest ≠ [] := by
  intro hr
  simp [token, lexeme, hr, Lexeme.ofChars] at h

theorem kind_ne_eof_of_skips {s : ScanSettings} {k : TokenKind} (h : s.skips k) : k ≠ .eof := by
  rintro rfl
  simp [ScanSettings.skips] at h

/-- The next token that is not skipped, and the cursor behind it. At the end of the source that
is the end token, again and again. -/
def next (c : Cursor) (s : ScanSettings) : Token × Cursor :=
  if s.skips (c.token s.golf).kind then (c.past s.golf).next s
  else (c.token s.golf, c.past s.golf)
termination_by c.rest.length
decreasing_by
  exact length_rest_past_lt (rest_ne_nil_of_kind_ne (kind_ne_eof_of_skips (by assumption)))

/-- Reading a token other than the end token shortens the rest of the source. -/
theorem length_rest_next_lt {c : Cursor} {s : ScanSettings} (h : (c.next s).1.kind ≠ .eof) :
    (c.next s).2.rest.length < c.rest.length := by
  fun_induction next c s with
  | case1 c hs ih =>
    exact Nat.lt_trans (ih h)
      (length_rest_past_lt (rest_ne_nil_of_kind_ne (kind_ne_eof_of_skips hs)))
  | case2 c hs => exact length_rest_past_lt (rest_ne_nil_of_kind_ne h)

end Cursor

end Rulebook
