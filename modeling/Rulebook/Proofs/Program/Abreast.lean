import Rulebook.Proofs.Program.Edge

/-!
# Parses that go abreast

Two parses read the same tokens at other places. Where the first comes to its end, the second
comes to its end too, or to a semicolon or the keyword `rule`, behind which it may go on. Until then
both do the same: no expression goes past such a place.

## Main definitions

* `openBraces`: the number of braces that some tokens leave open
* `Error.IsUnclosedRule`: the error for a rule whose body goes on up to the end of the source
* `Seam`: the token of the second parse in whose place the first one ends
* `Seam.Hides`: a rule may be under way at the seam, where the second parse goes on
* `Seam.Abreast`: two states with the same tokens up to the seam
* `Seam.Before`: the same, in front of tokens that may be known

## Main results

* `Seam.Abreast.advance`: parses stay abreast until they are at the seam
-/

namespace Rulebook

/-! ## Braces -/

section Braces

/-- The number of open braces behind a token. A closing brace may have no opening one. -/
def countBrace (count : Nat) : TokenKind → Nat
  | .lbrace => count + 1
  | .rbrace => count - 1
  | _ => count

/-- The number of open braces behind some tokens. -/
def openBraces (count : Nat) (tokens : List Token) : Nat :=
  tokens.foldl (fun count t => countBrace count t.kind) count

theorem countBrace_mono {count count' : Nat} (h : count ≤ count') (kind : TokenKind) :
    countBrace count kind ≤ countBrace count' kind := by
  unfold countBrace
  split <;> omega

theorem le_countBrace {kind : TokenKind} (h : kind ≠ .rbrace) (count : Nat) :
    count ≤ countBrace count kind := by
  unfold countBrace
  split
  · exact Nat.le_succ count
  · exact absurd rfl h
  · exact Nat.le_refl count

theorem openBraces_cons (count : Nat) (t : Token) (tokens : List Token) :
    openBraces count (t :: tokens) = openBraces (countBrace count t.kind) tokens :=
  rfl

theorem countBrace_of_not_significant {kind : TokenKind} (h : kind.isSignificant = false)
    (count : Nat) : countBrace count kind = count := by
  unfold countBrace
  split
  · cases h
  · cases h
  · rfl

/-- Braces are significant. -/
theorem openBraces_nextSignificant? {tokens rest : List Token} {t : Token}
    (h : nextSignificant? tokens = some (t, rest)) (count : Nat) :
    openBraces count tokens = openBraces count (t :: rest) := by
  -- Induction on the tokens, of which those that are passed over count nothing.
  induction tokens with
  | nil => cases h
  | cons token tokens ih =>
    rw [nextSignificant?] at h
    split at h
    · cases h
      rfl
    · next hs =>
      rw [openBraces_cons, countBrace_of_not_significant (Bool.eq_false_of_not_eq_true hs), ih h]

end Braces

/-! ## Rules without an end -/

section Unclosed

/-- What is said of a rule whose body goes on up to the end of the source. -/
def unclosedRule : String := "expected '\x7d' after rule body, found 'EOF'"

/-- An error because a rule is not closed at the end of the source. -/
def Error.IsUnclosedRule : Error → Prop
  | .malformed detail _ _ _ => detail = unclosedRule
  | _ => False

instance : DecidablePred Error.IsUnclosedRule
  | .malformed detail _ _ _ => decEq detail unclosedRule
  | .type _ | .tooDeep _ _ | .ruleLoop _ | .memory _ | .invalid _ | .unsupported _ | .arithmetic _
  | .config _ | .unreadable => .isFalse id

end Unclosed

/-! ## The seam -/

/-- The token of a parse in whose place another parse ends, with the tokens behind it: the end of
the source, the keyword of a rule, or a semicolon. Tokens in front of it are further to the right
than those of the other parse by a number of bytes, and so many more errors were noted. All braces
may be known to be closed there. -/
structure Seam where
  stop : Token
  after : List Token
  shift : Nat
  errors : Nat
  closed : Prop
  isStop : stop.kind = .eof ∨ stop.kind = .kwRule ∨ stop.kind = .semicolon

namespace Seam

variable (m : Seam)

theorem delimits_stop : m.stop.kind.delimits = true := by
  rcases m.isStop with hstop | hstop | hstop
  · rw [hstop]
    rfl
  · rw [hstop]
    rfl
  · rw [hstop]
    rfl

/-- One parse ends where the other one goes on, and a rule may be under way there. -/
def Hides : Prop :=
  m.stop.kind ≠ .eof ∧ ¬m.closed

/-- The same token in two parses. What is at the seam stands behind it. -/
structure Paired (t t' : Token) : Prop extends Token.Shifted m.shift t t' where
  proper : t.kind.IsProper
  before : m.stop.kind ≠ .eof → t'.span.start < m.stop.span.start

/-- Up to the seam the tokens of two parses are the same. -/
def edge : Edge :=
  ⟨m.Paired, m.stop, m.after, fun h => h.kind, fun h => h.proper, .inl m.delimits_stop⟩

/-- Two parses are in the same place and at the same depth. Where the braces are known to be closed
at the seam, the tokens up to it close `k` of them at least; `n` bounds the number of tokens. -/
structure Abreast (k n : Nat) (s s' : ParseState) : Prop where
  depth : s'.depth = s.depth
  nesting : s'.nesting = s.nesting
  errors : s'.errors.size = s.errors.size + m.errors
  place : m.edge.Beside s s'
  braces : m.closed → ∃ count, k ≤ count ∧ openBraces count (s.current :: s.rest) = 0
  length : s.rest.length ≤ n

/-- Two parses are abreast, in front of two tokens if these are known. -/
def Before (k n : Nat) (front : Parse.Front) (s s' : ParseState) : Prop :=
  m.Abreast k n s s' ∧ front.Holds s s'

/-- Two parses are abreast in front of two tokens. -/
abbrev At (k n : Nat) (t t' : Token) : ParseState → ParseState → Prop :=
  m.Before k n (.at t t')

variable {m}

/-! ### States -/

section States

variable {k k' n n' : Nat} {t t' : Token} {s s' : ParseState}

theorem Abreast.mono (h : m.Abreast k n s s') (hk : k' ≤ k) (hn : n ≤ n') :
    m.Abreast k' n' s s' :=
  { h with
    braces := fun hclosed => by
      obtain ⟨count, hle, hcount⟩ := h.braces hclosed
      exact ⟨count, hk.trans hle, hcount⟩
    length := h.length.trans hn }

theorem Abreast.length_le (h : m.Abreast k n s s') : s.rest.length ≤ s'.rest.length :=
  Nat.le_of_add_right_le h.place.length_add_le

/-- At the seam no brace is left to be closed. -/
theorem Abreast.eq_zero (h : m.Abreast k n s s') (hcurrent : s.current.kind = .eof)
    (hclosed : m.closed) : k = 0 := by
  obtain ⟨count, hle, hcount⟩ := h.braces hclosed
  -- There are no more tokens that could close a brace.
  rw [h.place.terminated.eq_nil hcurrent, openBraces_cons, hcurrent] at hcount
  have hcount : count = 0 := hcount
  omega

theorem At.pos (h : m.At k n t t' s s') (ht : m.Paired t t') : 0 < n := by
  obtain ⟨hs, rfl, rfl⟩ := h
  exact (hs.place.length_pos ht.proper.ne_eof).trans_le hs.length

/-- Parses that are not at the seam stay abreast. -/
theorem At.advance (h : m.At k n t t' s s') (ht : m.Paired t t')
    (hk : k' ≤ countBrace k t.kind) : m.Abreast k' (n - 1) s.advance s'.advance := by
  obtain ⟨hs, rfl, rfl⟩ := h
  obtain ⟨u, u', rest, rest', hnext, hadvance, hadvance', hplace⟩ :=
    hs.place.exists_advance ht.proper.ne_eof
  have hlt := ParseState.length_of_nextSignificant? hnext
  have hle := hs.length
  rw [hadvance, hadvance']
  refine ⟨hs.depth, hs.nesting, hs.errors, hplace, fun hclosed => ?_,
    (by omega : rest.length ≤ n - 1)⟩
  -- The braces behind the current token are counted by the tokens ahead.
  obtain ⟨count, hle, hcount⟩ := hs.braces hclosed
  refine ⟨countBrace count s.current.kind, hk.trans (countBrace_mono hle _), ?_⟩
  rwa [openBraces_cons, openBraces_nextSignificant? hnext] at hcount

end States

end Seam

end Rulebook
