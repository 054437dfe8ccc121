import Rulebook.Node.Walk
import Rulebook.Token.Stream

/-!
# The supply of tokens

## Main definitions

* `ParseSettings`: golf letters and the depth that may be reached
* `TokenSource`: what hands out the tokens that matter to the grammar: a stream, or a list of tokens
* `ParseState`: the current token and the source of those that follow it, the errors so far, and how
  deep the production under way is
* `ParseFrom`: computations on this state that may fail with an error
* `Parse.advance`, `Parse.accept`, `Parse.expect`: taking tokens
* `Parse.nested`, `Parse.checkHeight`: the two limits on depth
-/

namespace Rulebook

/-- How a source is parsed. -/
structure ParseSettings where
  /-- Whether single letters stand for verdicts. -/
  golf : Bool := false
  /-- How many productions may be nested. -/
  maxDepth : Nat := 256
  deriving DecidableEq

/-! ## Sources of tokens -/

/-- A source of tokens, which hands out those that matter to the grammar: trivia is passed over, and
so are error tokens. -/
class TokenSource (τ : Type) where
  /-- The next token, if there is one, and the source behind it. -/
  fetch? : τ → Option (Token × τ)
  /-- The kind of the next token, as far as a look ahead reaches. -/
  peekKind : τ → TokenKind × τ
  /-- An upper bound on the number of tokens that are left. -/
  bound : τ → Nat

namespace TokenStream

/-- Takes the next token that matters to the grammar. -/
def fetch (s : TokenStream) : Token × TokenStream :=
  match _hs : s.next with
  | (token, s') => if _hk : token.kind.isSignificant then (token, s') else fetch s'
termination_by s.cursor.rest.length + s.ahead.length
decreasing_by
  have := kind_eq_eof_or_length_next s
  rw [_hs] at this
  refine this.resolve_left fun heof => _hk ?_
  rw [heof]
  rfl

/-- The kind of the first token that matters to the grammar, among a number of tokens from the
`k`-th one on; the end's if there is none. -/
def peekKindFrom (k : Nat) : Nat → TokenStream → TokenKind × TokenStream
  | 0, s => (.eof, s)
  | n + 1, s =>
    let (token, s) := s.peek k
    if token.kind.isSignificant then (token.kind, s) else peekKindFrom (k + 1) n s

instance : TokenSource TokenStream where
  fetch? s := some s.fetch
  peekKind := peekKindFrom 1 lookaheadLimit
  -- The end token adds itself to the tokens that the text is taken apart into.
  bound s := s.ahead.length + s.cursor.rest.length + 1

end TokenStream

/-- The first token that matters to the grammar, and the tokens behind it. -/
def nextSignificant? : List Token → Option (Token × List Token)
  | [] => none
  | t :: rest => if t.kind.isSignificant then some (t, rest) else nextSignificant? rest

/-- The kind of the first token that matters to the grammar, among those that a look ahead reaches;
the end's if there is none. -/
def lookahead (tokens : List Token) : TokenKind :=
  match (tokens.take lookaheadLimit).find? (·.kind.isSignificant) with
  | some t => t.kind
  | none => .eof

instance : TokenSource (List Token) where
  fetch? := nextSignificant?
  peekKind tokens := (lookahead tokens, tokens)
  bound := List.length

/-! ## States -/

/-- The state of a parse. The tokens behind the current one come from `rest`; `depth` productions
are under way, `nesting` of them rules whose bodies are being read; and `nextId` is the next
identity to issue. -/
structure ParseState (τ : Type := List Token) where
  current : Token
  previous : Token
  rest : τ
  errors : Array Error := #[]
  depth : Nat := 0
  nesting : Nat := 0
  nextId : NodeId

/-- A computation on the state of a parse. Tokens that were taken stay taken when it fails. -/
abbrev ParseFrom (τ : Type) := EStateM Error (ParseState τ)

/-- A computation on the state of a parse of a list of tokens. -/
abbrev Parse := ParseFrom (List Token)

namespace ParseState

variable {τ : Type} [TokenSource τ]

/-- The token before the first one, and the one behind the last: an end token without text. -/
def emptyToken : Token := ⟨.eof, "", {}, 1, 1⟩

/-- The state at the start of a source. -/
def ofTokens (tokens : τ) (nextId : NodeId) : ParseState τ :=
  match TokenSource.fetch? tokens with
  | some (current, rest) => { current, previous := emptyToken, rest, nextId }
  | none => { current := emptyToken, previous := emptyToken, rest := tokens, nextId }

/-- Moves to the next token. The last one stays current. -/
def advance (s : ParseState τ) : ParseState τ :=
  match TokenSource.fetch? s.rest with
  | some (current, rest) => { s with current, previous := s.current, rest }
  | none => { s with previous := s.current }

/-- An upper bound on the number of tokens that are left to take. -/
def remaining (s : ParseState τ) : Nat :=
  TokenSource.bound s.rest + 1

end ParseState

namespace Parse

variable {τ : Type} {α : Type}

/-! ## Taking tokens -/

section Tokens

/-- The current token. -/
def current : ParseFrom τ Token :=
  return (← get).current

/-- Whether the current token is of a kind. -/
def isAt (kind : TokenKind) : ParseFrom τ Bool :=
  return (← get).current.kind == kind

/-- Fails at the current token. -/
def failHere (message : String) : ParseFrom τ α := do
  let t ← current
  throw (.malformed message t.span t.line t.column)

/-- Fails because something else was expected than the current token. -/
def failExpecting (what : String) : ParseFrom τ α := do
  failHere ("expected " ++ what ++ ", found '" ++ (← current).kind.text ++ "'")

variable [TokenSource τ]

/-- Takes the current token. -/
def advance : ParseFrom τ Token :=
  modifyGet fun s => (s.current, s.advance)

/-- The kind of the token behind the current one, as far as a look ahead reaches. -/
def nextKind : ParseFrom τ TokenKind :=
  modifyGet fun s =>
    let (kind, rest) := TokenSource.peekKind s.rest
    (kind, { s with rest })

/-- Takes the current token if it is of a kind. -/
def accept (kind : TokenKind) : ParseFrom τ Bool := do
  if ← isAt kind then
    let _ ← advance
    return true
  else
    return false

/-- Takes a token of a kind; `what` describes it. -/
def expect (kind : TokenKind) (what : String) : ParseFrom τ Token := do
  if ← isAt kind then advance else failExpecting what

/-- Takes a name; `what` describes it. -/
def expectName (what : String) : ParseFrom τ String := do
  match (← current).kind with
  | .identifier name =>
    let _ ← advance
    return name
  | _ => failExpecting what

end Tokens

/-! ## Limits and nodes -/

section Limits

/-- Runs a production one level deeper, unless the limit is reached. -/
def nested (settings : ParseSettings) (production : ParseFrom τ α) : ParseFrom τ α := fun s =>
  if settings.maxDepth ≤ s.depth then .error (.tooDeep "parser" settings.maxDepth) s
  else
    match production { s with depth := s.depth + 1 } with
    | .ok a s' => .ok a { s' with depth := s'.depth - 1 }
    | .error e s' => .error e { s' with depth := s'.depth - 1 }

/-- Reads the body of a rule. -/
def inRule (body : ParseFrom τ α) : ParseFrom τ α := fun s =>
  match body { s with nesting := s.nesting + 1 } with
  | .ok a s' => .ok a { s' with nesting := s'.nesting - 1 }
  | .error e s' => .error e { s' with nesting := s'.nesting - 1 }

/-- The height that a tree may have below the root and the enclosing rules, each of which adds
itself and the block that is its body. -/
def heightLimit (nesting : Nat) : Nat :=
  maxTreeDepth - (1 + 2 * nesting)

/-- Fails if a tree of a height has no place below the root and the enclosing rules. -/
def checkHeight (height : Nat) : ParseFrom τ Unit := do
  if heightLimit (← get).nesting < height then
    throw (.tooDeep "parser" maxTreeDepth)

/-- Makes a node with a place in the source. -/
def make (node : Fresh Node) (span : Span) (line : Nat) : ParseFrom τ Node :=
  modifyGet fun s =>
    let (n, nextId) := node s.nextId
    (n.withSpan span line, { s with nextId })

/-- Runs a production; if it fails, its error is the result. -/
def attempt (production : ParseFrom τ α) : ParseFrom τ (Except Error α) := fun s =>
  match production s with
  | .ok a s' => .ok (.ok a) s'
  | .error e s' => .ok (.error e) s'

/-- Notes an error. -/
def report (e : Error) : ParseFrom τ Unit :=
  modify fun s => { s with errors := s.errors.push e }

end Limits

end Parse

end Rulebook
