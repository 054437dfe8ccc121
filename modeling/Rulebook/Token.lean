import Rulebook.Number.Shortest
import Rulebook.Span
import Rulebook.Verdict

/-!
# Tokens

## Main definitions

* `LexicalFault`: the ways in which characters fail to form a token
* `TokenKind`: what a token is
* `TokenKind.ofWord?`: the reserved words
* `ReadContext`, `TokenKind.inContext`: single letters that stand for verdicts
* `Token`: a token with its text and its place in the source
-/

namespace Rulebook

/-- The ways in which characters fail to form a token, and the refusal to look too far ahead. -/
inductive LexicalFault where
  | unexpected (c : Char)
  | lone (c : Char)
  | unterminatedString
  | unterminatedComment
  | unicodeEscape
  | unknownEscape (c : Char)
  | exponent (text : String)
  | number (text : String)
  | emptyRadix (radix : String)
  | radixRange (radix digits : String)
  | lookahead (asked limit : Nat)
  deriving DecidableEq

/-- The text of a lexical fault. -/
def LexicalFault.message : LexicalFault → String
  | unexpected c => "unexpected character '" ++ c.toString ++ "'"
  | lone c =>
    "unexpected '" ++ c.toString ++ "', did you mean '" ++ c.toString ++ c.toString ++ "'?"
  | unterminatedString => "unterminated string"
  | unterminatedComment => "unterminated block comment"
  | unicodeEscape => "invalid unicode escape"
  | unknownEscape c => "unknown escape sequence '\\" ++ c.toString ++ "'"
  | exponent text => "incomplete exponent in '" ++ text ++ "'"
  | number text => "invalid number literal '" ++ text ++ "'"
  | emptyRadix radix => "incomplete " ++ radix ++ " literal"
  | radixRange radix digits => radix ++ " literal '" ++ digits ++ "' out of range"
  | lookahead asked limit =>
    "lookahead of " ++ toString asked ++ " exceeds buffer capacity " ++ toString limit

/-- What a token is. Blanks, line ends and comments are trivia. -/
inductive TokenKind where
  | number (x : Float)
  | string (s : String)
  | kwTrue
  | kwFalse
  | kwNull
  | identifier (name : String)
  | kwRule
  | kwIf
  | kwThen
  | kwElse
  | kwEnd
  | kwWhen
  | kwDo
  | verdict (v : Verdict)
  | underscore
  | kwAny
  | kwAll
  | question
  | colon
  | elvis
  | and
  | or
  | bang
  | chain
  | arrow
  | fatArrow
  | assign
  | eqEq
  | bangEq
  | lt
  | ltEq
  | gt
  | gtEq
  | plus
  | minus
  | star
  | slash
  | percent
  | lparen
  | rparen
  | lbrace
  | rbrace
  | comma
  | semicolon
  | blanks
  | lineEnd
  | comment
  | error (fault : LexicalFault)
  | eof
  deriving DecidableEq

namespace TokenKind

/-- Blanks, line ends and comments. -/
def isTrivia : TokenKind → Bool
  | blanks | lineEnd | comment => true
  | _ => false

/-- Characters that form no token. -/
def isError : TokenKind → Bool
  | error _ => true
  | _ => false

/-- Tokens that matter to the grammar. -/
def isSignificant (k : TokenKind) : Bool :=
  !k.isTrivia && !k.isError

/-- The keyword of a verdict, in full or as a letter. -/
def isVerdict : TokenKind → Bool
  | verdict _ => true
  | _ => false

/-- The reserved words. A word is reserved only as a whole. -/
def ofWord? : String → Option TokenKind
  | "rule" => some kwRule
  | "if" => some kwIf
  | "then" => some kwThen
  | "else" => some kwElse
  | "end" => some kwEnd
  | "when" => some kwWhen
  | "do" => some kwDo
  | "true" => some kwTrue
  | "false" => some kwFalse
  | "null" => some kwNull
  | "and" => some and
  | "or" => some or
  | "not" => some bang
  | "win" => some (verdict .win)
  | "lose" => some (verdict .lose)
  | "draw" => some (verdict .draw)
  | "skip" => some (verdict .skip)
  | "fail" => some (verdict .fail)
  | "pass" => some (verdict .pass)
  | "_" => some underscore
  | "any" => some kwAny
  | "all" => some kwAll
  | _ => none

/-- How a token is mentioned in messages. -/
def text : TokenKind → String
  | number x => numberText x
  | string s => "\"" ++ s ++ "\""
  | kwTrue => "true"
  | kwFalse => "false"
  | kwNull => "null"
  | identifier name => name
  | kwRule => "rule"
  | kwIf => "if"
  | kwThen => "then"
  | kwElse => "else"
  | kwEnd => "end"
  | kwWhen => "when"
  | kwDo => "do"
  | verdict v => v.name
  | underscore => "_"
  | kwAny => "any"
  | kwAll => "all"
  | question => "?"
  | colon => ":"
  | elvis => "?:"
  | and => "&&"
  | or => "||"
  | bang => "!"
  | chain => ">>"
  | arrow => "->"
  | fatArrow => "=>"
  | assign => "="
  | eqEq => "=="
  | bangEq => "!="
  | lt => "<"
  | ltEq => "<="
  | gt => ">"
  | gtEq => ">="
  | plus => "+"
  | minus => "-"
  | star => "*"
  | slash => "/"
  | percent => "%"
  | lparen => "("
  | rparen => ")"
  | lbrace => "\x7b"
  | rbrace => "\x7d"
  | comma => ","
  | semicolon => ";"
  | blanks => "whitespace"
  | lineEnd => "newline"
  | comment => "comment"
  | error fault => "error: " ++ fault.message
  | eof => "EOF"

end TokenKind

/-- Where in the grammar a token is read. Only where a consequence is expected do single letters
stand for verdicts. -/
inductive ReadContext where
  | condition
  | consequence
  | statement
  deriving DecidableEq

/-- What a token is where a consequence is expected and golf letters are in use. -/
def TokenKind.inContext (golf : Bool) (context : ReadContext) : TokenKind → TokenKind
  | identifier name =>
    if golf && context == .consequence then
      match Verdict.ofLetter? name with
      | some v => verdict v
      | none => identifier name
    else identifier name
  | kind => kind

/-- A token: its kind, its text, the bytes it covers, and the line and column, counted from one,
of its first character. -/
structure Token where
  kind : TokenKind
  text : String
  span : Span
  line : Nat
  column : Nat
  deriving DecidableEq

namespace Token

/-- A token as it is read in a context. -/
def inContext (golf : Bool) (context : ReadContext) (t : Token) : Token :=
  { t with kind := t.kind.inContext golf context }

/-- Whether the token covers no bytes. -/
def isEmpty (t : Token) : Bool :=
  t.span.length == 0

end Token

end Rulebook
