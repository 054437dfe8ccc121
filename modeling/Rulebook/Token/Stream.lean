import Rulebook.Error
import Rulebook.Token.Cursor

/-!
# Token streams with lookahead

## Main definitions

* `TokenStream`: a source read on demand, with a few tokens looked at ahead of their turn
* `TokenStream.next`, `TokenStream.peek`: taking a token, and looking at one further ahead
* `TokenStream.drain`: all remaining tokens up to the end token

Errors are noted when a token is scanned, which a look ahead may do before its turn.
-/

namespace Rulebook

/-- How many tokens can be looked at ahead of their turn. -/
def lookaheadLimit : Nat := 3

/-- The error that an error token stands for. -/
def Token.error? (t : Token) : Option Error :=
  match t.kind with
  | .error fault => some (.malformed fault.message t.span t.line t.column)
  | _ => none

/-- A source read on demand. `ahead` holds tokens that were scanned but not taken. -/
structure TokenStream where
  settings : ScanSettings
  size : Nat
  cursor : Cursor
  ahead : List Token := []
  errors : Array Error := #[]

namespace TokenStream

/-- The stream of a source, at its start. -/
def ofSource (settings : ScanSettings) (source : String) : TokenStream :=
  { settings, size := source.utf8ByteSize, cursor := ⟨{}, source.toList⟩ }

/-- Scans the next token. -/
def scan (s : TokenStream) : Token × TokenStream :=
  let (token, cursor) := s.cursor.next s.settings
  let errors :=
    match token.error? with
    | some e => s.errors.push e
    | none => s.errors
  (token, { s with cursor, errors })

/-- Takes the next token. -/
def next (s : TokenStream) : Token × TokenStream :=
  match s.ahead with
  | token :: ahead => (token, { s with ahead })
  | [] => s.scan

/-- Takes the next token and reads it in a context. -/
def nextIn (s : TokenStream) (context : ReadContext) : Token × TokenStream :=
  let (token, s) := s.next
  (token.inContext s.settings.golf context, s)

/-- Scans a number of tokens ahead of their turn. -/
def scanAhead : Nat → TokenStream → TokenStream
  | 0, s => s
  | n + 1, s =>
    let (token, s') := s.scan
    scanAhead n { s' with ahead := s'.ahead ++ [token] }

/-- The error token that answers a look too far ahead, or at no token. -/
def refusal (s : TokenStream) (k : Nat) : Token :=
  let place := s.cursor.place
  { kind := .error (.lookahead k lookaheadLimit)
    text := ""
    span := ⟨place.offset, place.offset⟩
    line := place.line
    column := place.column }

/-- The `k`-th token from here, counted from one, without taking it. -/
def peek (s : TokenStream) (k : Nat) : Token × TokenStream :=
  if k = 0 ∨ lookaheadLimit < k then (s.refusal k, s)
  else
    let s := s.scanAhead (k - s.ahead.length)
    (s.ahead[k - 1]?.getD (s.refusal k), s)

theorem kind_eq_eof_or_length_next (s : TokenStream) : s.next.1.kind = .eof ∨
    s.next.2.cursor.rest.length + s.next.2.ahead.length <
      s.cursor.rest.length + s.ahead.length := by
  obtain ⟨settings, size, cursor, ahead, errors⟩ := s
  cases ahead with
  | cons t ahead => simp [next]
  | nil =>
    by_cases h : (cursor.next settings).1.kind = .eof
    · simp [next, scan, h]
    · simpa [next, scan, h] using Cursor.length_rest_next_lt h

/-- Takes all tokens up to and including the end token. -/
def drain (s : TokenStream) : List Token × TokenStream :=
  match _hs : s.next with
  | (token, s') =>
    if _hk : token.kind = .eof then ([token], s')
    else
      let (tokens, last) := drain s'
      (token :: tokens, last)
termination_by s.cursor.rest.length + s.ahead.length
decreasing_by
  have := kind_eq_eof_or_length_next s
  rw [_hs] at this
  exact this.resolve_left _hk

/-- Whether characters that form no token were met so far. -/
def hadError (s : TokenStream) : Bool :=
  !s.errors.isEmpty

end TokenStream

/-- The tokens of a source up to and including the end token, and its lexical errors. -/
def tokenize (settings : ScanSettings) (source : String) : List Token × List Error :=
  let (tokens, s) := (TokenStream.ofSource settings source).drain
  (tokens, s.errors.toList)

end Rulebook
