import Rulebook.Proofs.Program.Congruence
import Rulebook.Proofs.Program.State
import Rulebook.Proofs.Token.Scan

/-!
# Tokens that are left

Trivia and error tokens that stand in the supply of a parse are passed over when a token is taken.
They count only where a parse looks ahead behind a name, since a look ahead reaches no further than
a few tokens, whatever these are.

## Main definitions

* `Terminated`: tokens as they come from a source, up to the end
* `sights`: what a look ahead finds behind each name
* `ParseState.left`: the number of significant tokens behind the current one
* `ParseState.supply`: the significant tokens that were not yet taken
* `ParseState.Supplied`: all tokens that are left are of some kinds
* `ParseState.Level`: two states with the same significant tokens, and the same in sight

## Main results

* `ParseState.left_advance`: taking a token leaves one token less
* `ParseState.Level.advance`: states stay level when a token is taken on both sides
* `Parse.exists_run_items`: a row of items comes to its end if each round takes a token
-/

namespace Rulebook

/-! ## Supplies -/

section Supplies

/-- The tokens that matter to the grammar. -/
def significant (tokens : List Token) : List Token :=
  tokens.filter (·.kind.isSignificant)

theorem significant_of_pos {t : Token} (h : t.kind.isSignificant = true) (tokens : List Token) :
    significant (t :: tokens) = t :: significant tokens := by
  rw [significant, List.filter_cons, if_pos h, significant]

theorem significant_of_neg {t : Token} (h : ¬t.kind.isSignificant = true) (tokens : List Token) :
    significant (t :: tokens) = significant tokens := by
  rw [significant, List.filter_cons, if_neg h, significant]

/-- Tokens of a source, the last of which is its end. -/
inductive Terminated : List Token → Prop
  | last {t : Token} (h : t.kind = .eof) : Terminated [t]
  | cons {t : Token} {tokens : List Token} (h : t.kind.IsProper) (hs : Terminated tokens) :
    Terminated (t :: tokens)

theorem terminated_of_concat {front : List Token} {last : Token} (hlast : last.kind = .eof)
    (hfront : ∀ t ∈ front, t.kind.IsProper) : Terminated (front ++ [last]) := by
  induction front with
  | nil => exact .last hlast
  | cons t front ih =>
    obtain ⟨ht, hfront⟩ := List.forall_mem_cons.1 hfront
    exact .cons ht (ih hfront)

theorem terminated_tokenize (scan : ScanSettings) (source : String) :
    Terminated (tokenize scan source).1 := by
  obtain ⟨front, last, htokens, hlast, hfront⟩ := exists_tokenize scan source
  rw [htokens]
  exact terminated_of_concat hlast hfront

namespace Terminated

variable {t : Token} {tokens : List Token}

theorem isProper (h : Terminated (t :: tokens)) (ht : t.kind ≠ .eof) : t.kind.IsProper := by
  cases h with
  | last heof => exact absurd heof ht
  | cons hproper _ => exact hproper

theorem tail (h : Terminated (t :: tokens)) (ht : t.kind ≠ .eof) : Terminated tokens := by
  cases h with
  | last heof => exact absurd heof ht
  | cons _ hs => exact hs

/-- There are no tokens behind the end. -/
theorem eq_nil (h : Terminated (t :: tokens)) (ht : t.kind = .eof) : tokens = [] := by
  cases h with
  | last _ => rfl
  | cons hproper _ => exact absurd ht hproper.ne_eof

/-- A next token is found, at the latest the end. -/
theorem exists_next (h : Terminated tokens) : ∃ u rest, nextSignificant? tokens = some (u, rest) ∧
    Terminated (u :: rest) ∧ significant tokens = u :: significant rest := by
  induction h with
  | @last t ht =>
    have hsignificant : t.kind.isSignificant = true := by rw [ht]; rfl
    refine ⟨t, [], ?_, .last ht, ?_⟩
    · rw [nextSignificant?, if_pos hsignificant]
    · exact significant_of_pos hsignificant []
  | @cons t tokens ht hs ih =>
    by_cases hsignificant : t.kind.isSignificant = true
    · refine ⟨t, tokens, ?_, .cons ht hs, ?_⟩
      · rw [nextSignificant?, if_pos hsignificant]
      · exact significant_of_pos hsignificant tokens
    · obtain ⟨u, rest, hnext, hterminated, hfilter⟩ := ih
      refine ⟨u, rest, ?_, hterminated, ?_⟩
      · rw [nextSignificant?, if_neg hsignificant, hnext]
      · rw [significant_of_neg hsignificant, hfilter]

end Terminated

end Supplies

/-! ## Looking ahead -/

section Sights

/-- Whether a token is a name. -/
def Token.isName (t : Token) : Bool :=
  match t.kind with
  | .identifier _ => true
  | _ => false

/-- What a look ahead finds behind each name, so far as it makes the name a call or an
assignment. -/
def sights : List Token → List (Option TokenKind)
  | [] => []
  | t :: tokens =>
    if t.isName then (lookahead tokens).continues? :: sights tokens else sights tokens

theorem isSignificant_of_isName {t : Token} (h : t.isName = true) :
    t.kind.isSignificant = true := by
  unfold Token.isName at h
  split at h
  · next hname => rw [hname]; rfl
  · cases h

/-- Names are significant. -/
theorem sights_of_nextSignificant? {t : Token} {tokens rest : List Token}
    (h : nextSignificant? tokens = some (t, rest)) : sights tokens = sights (t :: rest) := by
  induction tokens with
  | nil => cases h
  | cons token tokens ih =>
    rw [nextSignificant?] at h
    split at h
    · cases h
      rfl
    · next hs =>
      rw [sights, if_neg (mt isSignificant_of_isName hs), ih h]

end Sights

/-! ## States -/

namespace ParseState

/-- The number of significant tokens behind the current one. -/
def left (s : ParseState) : Nat :=
  (significant s.rest).length

/-- Two states are in front of the same significant tokens, at the same depth and with the same
errors, and what they see ahead is the same. -/
structure Level (s s' : ParseState) : Prop where
  current : s'.current = s.current
  rest : significant s'.rest = significant s.rest
  depth : s'.depth = s.depth
  nesting : s'.nesting = s.nesting
  errors : s'.errors = s.errors
  sights : sights (s'.current :: s'.rest) = sights (s.current :: s.rest)
  terminated : Terminated (s.current :: s.rest)
  terminated' : Terminated (s'.current :: s'.rest)

/-- The place of a parse did not change, or tokens were taken. -/
def Moved (s t : ParseState) : Prop :=
  t.current = s.current ∧ t.rest = s.rest ∨ t.left < s.left ∧ t.rest.length < s.rest.length

section Advance

variable {s s' t u : ParseState}

theorem nextKind_eq (s : ParseState) : s.nextKind = lookahead s.rest :=
  rfl

theorem Moved.refl (s : ParseState) : s.Moved s :=
  .inl ⟨rfl, rfl⟩

theorem Moved.left_le (h : s.Moved t) : t.left ≤ s.left := by
  rcases h with ⟨-, hrest⟩ | ⟨hlt, -⟩
  · rw [left, left, hrest]
  · exact Nat.le_of_lt hlt

theorem Moved.length_le (h : s.Moved t) : t.rest.length ≤ s.rest.length := by
  rcases h with ⟨-, hrest⟩ | ⟨-, hlt⟩
  · rw [hrest]
  · exact Nat.le_of_lt hlt

theorem Moved.length_lt (h : s.Moved t) (hlt : t.left < s.left) :
    t.rest.length < s.rest.length := by
  rcases h with ⟨-, hrest⟩ | ⟨-, hlength⟩
  · rw [left, left, hrest] at hlt
    exact absurd hlt (Nat.lt_irrefl _)
  · exact hlength

theorem Moved.trans (h : s.Moved t) (h' : t.Moved u) : s.Moved u := by
  rcases h with ⟨hcurrent, hrest⟩ | ⟨hlt, hlength⟩
  · rcases h' with ⟨hcurrent', hrest'⟩ | hlt'
    · exact .inl ⟨hcurrent'.trans hcurrent, hrest'.trans hrest⟩
    · have hleft : t.left = s.left := by rw [left, left, hrest]
      rw [hleft, hrest] at hlt'
      exact .inr hlt'
  · exact .inr ⟨h'.left_le.trans_lt hlt, h'.length_le.trans_lt hlength⟩

theorem errors_advance (s : ParseState) : s.advance.errors = s.errors := by
  cases h : nextSignificant? s.rest with
  | none => rw [advance_none h]
  | some next => rw [advance_some h]

theorem left_lt_remaining (s : ParseState) : s.left < s.remaining :=
  Nat.lt_succ_of_le (List.length_filter_le _ _)

/-- What is behind the current token, other than the end. -/
theorem exists_advance (h : Terminated (s.current :: s.rest)) (hne : s.current.kind ≠ .eof) :
    ∃ u rest, nextSignificant? s.rest = some (u, rest) ∧
      s.advance = { s with current := u, previous := s.current, rest } ∧
      Terminated (u :: rest) ∧ significant s.rest = u :: significant rest := by
  obtain ⟨u, rest, hnext, hterminated, hsignificant⟩ := (h.tail hne).exists_next
  refine ⟨u, rest, hnext, ?_, hterminated, hsignificant⟩
  rw [advance_some hnext]

/-- Taking a token leaves one token less. -/
theorem left_advance (h : Terminated (s.current :: s.rest)) (hne : s.current.kind ≠ .eof) :
    s.advance.left + 1 = s.left := by
  obtain ⟨u, rest, -, hadvance, -, hsignificant⟩ := exists_advance h hne
  rw [hadvance, left, left, hsignificant, List.length_cons]

/-- A look ahead finds the token that is current when one is taken, if it finds one. -/
theorem kind_current_advance (h : Terminated (s.current :: s.rest)) (hne : s.current.kind ≠ .eof)
    (hkind : s.nextKind ≠ .eof) : s.advance.current.kind = s.nextKind := by
  obtain ⟨u, rest, hnext, -⟩ := exists_advance h hne
  exact kind_advance rfl hnext hkind

theorem moved_advance (h : Terminated (s.current :: s.rest)) (hne : s.current.kind ≠ .eof) :
    s.Moved s.advance := by
  obtain ⟨u, rest, hnext, hadvance, -⟩ := exists_advance h hne
  have hleft := left_advance h hne
  have hlength := length_of_nextSignificant? hnext
  refine .inr ⟨by omega, ?_⟩
  rwa [hadvance]

/-- The significant tokens that were not yet taken, the end included. -/
def supply (s : ParseState) : List Token :=
  s.current :: significant s.rest

theorem length_supply (s : ParseState) : s.supply.length = s.left + 1 :=
  rfl

theorem supply_advance {s : ParseState} (h : Terminated (s.current :: s.rest))
    (hne : s.current.kind ≠ .eof) : s.supply = s.current :: s.advance.supply := by
  obtain ⟨u, rest, -, hadvance, -, hsignificant⟩ := exists_advance h hne
  rw [hadvance, supply, supply, hsignificant]

namespace Level

theorem left_eq (h : s.Level s') : s'.left = s.left := by
  rw [left, left, h.rest]

theorem refl (h : Terminated (s.current :: s.rest)) : s.Level s :=
  ⟨rfl, rfl, rfl, rfl, rfl, rfl, h, h⟩

/-- Behind the same name a look ahead finds the same, so far as it matters. -/
theorem continues?_eq (h : s.Level s') (hname : s.current.isName = true) :
    s'.nextKind.continues? = s.nextKind.continues? := by
  have hsights := h.sights
  rw [h.current, Rulebook.sights, Rulebook.sights, if_pos hname, if_pos hname] at hsights
  exact (List.cons.inj hsights).1

/-- States stay level when a token is taken on both sides. -/
theorem advance (h : s.Level s') (hne : s.current.kind ≠ .eof) : s.advance.Level s'.advance := by
  have hne' : s'.current.kind ≠ .eof := h.current ▸ hne
  obtain ⟨u, rest, hnext, hadvance, hterminated, hsignificant⟩ := exists_advance h.terminated hne
  obtain ⟨u', rest', hnext', hadvance', hterminated', hsignificant'⟩ :=
    exists_advance h.terminated' hne'
  have hcons : u' :: significant rest' = u :: significant rest := by
    rw [← hsignificant, ← hsignificant', h.rest]
  obtain ⟨rfl, hrest⟩ := List.cons.inj hcons
  -- What is in sight behind the token that was taken is no longer asked for.
  have hsights : Rulebook.sights (u' :: rest') = Rulebook.sights (u' :: rest) := by
    rw [← sights_of_nextSignificant? hnext, ← sights_of_nextSignificant? hnext']
    have hall := h.sights
    rw [h.current, Rulebook.sights, Rulebook.sights] at hall
    split at hall
    · exact (List.cons.inj hall).2
    · exact hall
  rw [hadvance, hadvance']
  exact ⟨rfl, hrest, h.depth, h.nesting, h.errors, hsights, hterminated, hterminated'⟩

end Level

end Advance

section Supplied

variable {T : TokenKind → Prop}

/-- The tokens that are left are of some kinds. -/
structure Supplied (T : TokenKind → Prop) (s : ParseState) : Prop where
  current : T s.current.kind
  rest : ∀ t ∈ s.rest, T t.kind

theorem mem_of_nextSignificant? {tokens rest : List Token} {t : Token}
    (h : nextSignificant? tokens = some (t, rest)) : t ∈ tokens ∧ ∀ u ∈ rest, u ∈ tokens := by
  induction tokens with
  | nil => cases h
  | cons token tokens ih =>
    rw [nextSignificant?] at h
    split at h
    · cases h
      exact ⟨List.mem_cons_self, fun u hu => List.mem_cons_of_mem _ hu⟩
    · obtain ⟨ht, hrest⟩ := ih h
      exact ⟨List.mem_cons_of_mem _ ht, fun u hu => List.mem_cons_of_mem _ (hrest u hu)⟩

theorem Supplied.advance {s : ParseState} (h : s.Supplied T) : s.advance.Supplied T := by
  cases hnext : nextSignificant? s.rest with
  | none =>
    rw [advance_none hnext]
    exact ⟨h.current, h.rest⟩
  | some next =>
    obtain ⟨hcurrent, hrest⟩ := mem_of_nextSignificant? hnext
    rw [advance_some hnext]
    exact ⟨h.rest _ hcurrent, fun t ht => h.rest t (hrest t ht)⟩

theorem supplied_ofTokens {tokens : List Token} (next : NodeId) (heof : T .eof)
    (h : ∀ t ∈ tokens, T t.kind) : (ParseState.ofTokens tokens next).Supplied T := by
  rw [ofTokens]
  split
  · next hnext =>
    obtain ⟨hcurrent, hrest⟩ := mem_of_nextSignificant? hnext
    exact ⟨h _ hcurrent, fun t ht => h t (hrest t ht)⟩
  · exact ⟨heof, h⟩

end Supplied

end ParseState

/-! ## Rows of items -/

namespace Parse

section Rows

variable {item : Parse Node} {insideRule : Bool} {P : ParseState → ParseState → Prop}

/-- A row of items ends at the end, or in front of the brace that closes it, if each round takes a
token. It keeps what each round keeps. -/
theorem exists_run_items (hrefl : ∀ s, P s s) (htrans : ∀ {s t u}, P s t → P t u → P s u)
    (hturn : ∀ s : ParseState, Terminated (s.current :: s.rest) → s.current.kind ≠ .eof →
      (s.current.kind = .rbrace → insideRule = false) →
      ∃ new t, EStateM.run (turn item insideRule s.current.span.start) s = .ok new t ∧
        Terminated (t.current :: t.rest) ∧ t.left < s.left ∧ P s t)
    (fuel : Nat) {s : ParseState} (hs : Terminated (s.current :: s.rest)) (hfuel : s.left < fuel)
    (done : List Node) :
    ∃ ns t, EStateM.run (items item insideRule fuel done) s = .ok ns t ∧
      Terminated (t.current :: t.rest) ∧
      (t.current.kind = .eof ∨ insideRule = true ∧ t.current.kind = .rbrace) ∧ P s t := by
  induction fuel generalizing s done with
  | zero => exact absurd hfuel (Nat.not_lt_zero _)
  | succ fuel ih =>
    cases hc : (s.current.kind == .eof || (insideRule && s.current.kind == .rbrace)) with
    | true =>
      rw [run_items_stop fuel done hc]
      exact ⟨done.reverse, s, rfl, hs, by simpa using hc, hrefl s⟩
    | false =>
      obtain ⟨heof, hinside⟩ := Bool.or_eq_false_iff.1 hc
      have hbrace (hkind : s.current.kind = .rbrace) : insideRule = false := by
        rw [hkind] at hinside
        simpa using hinside
      obtain ⟨new, u, hrun, hu, hlt, hP⟩ := hturn s hs (beq_eq_false_iff_ne.1 heof) hbrace
      obtain ⟨ns, t, hitems, ht, hend, hP'⟩ := ih hu (by omega) (new.toList ++ done)
      rw [run_items_turn fuel done hc hrun]
      exact ⟨ns, t, hitems, ht, hend, htrans hP hP'⟩

end Rows

end Parse

end Rulebook
