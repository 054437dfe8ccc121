import Rulebook.Proofs.Program.Alike
import Rulebook.Proofs.Program.Supply

/-!
# Tokens that two parses share

Two parses read the same tokens, at other places perhaps. The first one comes to its end where the
second one comes to a token that no expression goes past: the end, the keyword of a rule, a
semicolon, a comma or a closing parenthesis. What is behind this edge is of no account.

## Main definitions

* `Edge`: which tokens are the same in two parses, and the token in whose place the first one ends
* `Edge.Supply`: the same tokens in two supplies, up to the edge
* `Edge.Place`: the current tokens and those behind them are the same, up to the edge
* `Edge.Beside`: two parses are in the same place

## Main results

* `Edge.Supply.continues?_eq`: a look ahead finds the same, so far as it counts
* `Edge.Beside.advance`: parses stay in the same place when a token is taken on both sides
-/

namespace Rulebook

/-- The edge of the tokens that two parses share: the token of the second parse in whose place the
first one ends, with the tokens behind it. In front of it tokens are paired. -/
structure Edge where
  Paired : Token → Token → Prop
  stop : Token
  after : List Token
  kind_eq : ∀ {t t'}, Paired t t' → t'.kind = t.kind
  proper : ∀ {t t'}, Paired t t' → t.kind.IsProper
  isStop : stop.kind.delimits = true ∨ stop.kind.breaks = true

namespace Edge

variable (e : Edge)

/-- The same tokens in two parses up to the edge. -/
inductive Supply : List Token → List Token → Prop
  | last {t : Token} {tokens' : List Token} (ht : t.kind = .eof)
    (h : nextSignificant? tokens' = some (e.stop, e.after)) : Supply [t] tokens'
  | cons {t t' : Token} {tokens tokens' : List Token} (ht : e.Paired t t')
    (h : Supply tokens tokens') : Supply (t :: tokens) (t' :: tokens')

/-- The current token and those behind it are the same in two parses up to the edge, or they are
at the edge. -/
def Place (t : Token) (rest : List Token) (t' : Token) (rest' : List Token) : Prop :=
  e.Paired t t' ∧ e.Supply rest rest' ∨
    t.kind = .eof ∧ rest = [] ∧ t' = e.stop ∧ rest' = e.after

/-- Two parses are in the same place. -/
def Beside (s s' : ParseState) : Prop :=
  e.Place s.current s.rest s'.current s'.rest

/-- Tokens are paired, and nodes are equal. -/
def comparison (settings settings' : ParseSettings) (golf : settings'.golf = settings.golf) :
    Parse.Comparison settings settings' :=
  .alike e.Paired (fun t t' => t.kind = .eof ∧ t' = e.stop) golf e.kind_eq e.proper
    (fun h => h.1) fun h => h.2 ▸ e.isStop

variable {e}

/-! ## Supplies -/

section Supplies

variable {tokens tokens' rest rest' : List Token} {t t' : Token}

theorem Supply.terminated (h : e.Supply tokens tokens') : Terminated tokens := by
  induction h with
  | last ht _ => exact .last ht
  | cons ht _ ih => exact .cons (e.proper ht) ih

/-- The next significant tokens are the same, or they are at the edge. -/
theorem Supply.next (h : e.Supply tokens tokens') :
    ∃ t t' rest rest', nextSignificant? tokens = some (t, rest) ∧
      nextSignificant? tokens' = some (t', rest') ∧ e.Place t rest t' rest' := by
  induction h with
  | @last t tokens' ht h =>
    -- The end is significant.
    refine ⟨t, e.stop, [], e.after, ?_, h, .inr ⟨ht, rfl, rfl, rfl⟩⟩
    rw [nextSignificant?, ht]
    rfl
  | @cons t t' tokens tokens' ht h ih =>
    -- Whether a token is significant depends on its kind, which is the same.
    rw [nextSignificant?, nextSignificant?, e.kind_eq ht]
    split
    · exact ⟨t, t', tokens, tokens', rfl, rfl, .inl ⟨ht, h⟩⟩
    · exact ih

/-- Behind the edge there are further tokens on one side. -/
theorem Supply.length_add_le (h : e.Supply tokens tokens') :
    tokens.length + e.after.length ≤ tokens'.length := by
  induction h with
  | last _ h =>
    have hlt := ParseState.length_of_nextSignificant? h
    rw [List.length_singleton]
    omega
  | cons _ _ ih =>
    rw [List.length_cons, List.length_cons]
    omega

theorem Supply.length_pos (h : e.Supply tokens tokens') : 0 < tokens.length := by
  cases h <;> simp

/-- Among as many tokens the same kind is found first, or none that is in front of the edge. -/
theorem Supply.find? (h : e.Supply tokens tokens') (limit : Nat) :
    ((tokens'.take limit).find? (·.kind.isSignificant)).map (·.kind) =
        ((tokens.take limit).find? (·.kind.isSignificant)).map (·.kind) ∨
      (∀ t ∈ (tokens.take limit).find? (·.kind.isSignificant), t.kind = .eof) ∧
        ∀ t' ∈ (tokens'.take limit).find? (·.kind.isSignificant), t' = e.stop := by
  induction h generalizing limit with
  | @last t tokens' ht h =>
    -- What is found is the end on one side, and the stop on the other, if they are near enough.
    refine .inr ⟨fun u hu => ?_, fun u hu => ?_⟩
    · have hmem := List.mem_of_mem_take (List.mem_of_find?_eq_some hu)
      rw [List.mem_singleton.1 hmem, ht]
    · rcases ParseState.find?_take_of_nextSignificant? h limit with hfind | hfind
      · rw [hfind] at hu
        exact (Option.some.inj hu).symm
      · rw [hfind] at hu
        cases hu
  | @cons t t' tokens tokens' ht _ ih =>
    cases limit with
    | zero => exact .inl rfl
    | succ limit =>
      rw [List.take_succ_cons, List.take_succ_cons, List.find?_cons, List.find?_cons, e.kind_eq ht]
      split
      · exact .inl (congrArg some (e.kind_eq ht))
      · exact ih limit

/-- A look ahead finds the same in two parses, so far as it makes a name a call or an assignment. -/
theorem Supply.continues?_eq (h : e.Supply tokens tokens') :
    (lookahead tokens').continues? = (lookahead tokens).continues? := by
  have hlook (ts : List Token) : lookahead ts =
      (((ts.take lookaheadLimit).find? (·.kind.isSignificant)).map (·.kind)).getD .eof := by
    rw [lookahead]
    split
    · next h => rw [h]; rfl
    · next h => rw [h]; rfl
  rcases h.find? lookaheadLimit with h | ⟨h, h'⟩
  · rw [hlook, hlook, h]
  -- Neither is a name in front of the edge continued by the end, nor by what stops an expression.
  · have hleft : (lookahead tokens).continues? = none := by
      rw [lookahead]
      split
      · next u hu => rw [h u hu]; rfl
      · rfl
    have hright : (lookahead tokens').continues? = none := by
      rw [lookahead]
      split
      · next u hu =>
        rw [h' u hu]
        rcases TokenKind.mem_of_ends e.isStop with h | h | h | h | h <;> rw [h] <;> rfl
      · rfl
    rw [hleft, hright]

theorem Place.supply (h : e.Place t rest t' rest') (ht : t.kind ≠ .eof) :
    e.Paired t t' ∧ e.Supply rest rest' :=
  h.resolve_right fun hend => ht hend.1

/-- Two parses are at the edge. -/
theorem Place.stopped (h : e.Place t rest t' rest') (ht : t.kind = .eof) :
    t' = e.stop ∧ rest' = e.after := by
  rcases h with ⟨hpaired, -⟩ | ⟨-, -, hstop⟩
  · exact absurd ht (e.proper hpaired).ne_eof
  · exact hstop

theorem Place.terminated (h : e.Place t rest t' rest') : Terminated (t :: rest) := by
  rcases h with ⟨hpaired, hrest⟩ | ⟨heof, rfl, -⟩
  · exact .cons (e.proper hpaired) hrest.terminated
  · exact .last heof

theorem Place.length_add_le (h : e.Place t rest t' rest') :
    rest.length + e.after.length ≤ rest'.length := by
  rcases h with ⟨-, hrest⟩ | ⟨-, rfl, -, rfl⟩
  · exact hrest.length_add_le
  · rw [List.length_nil, Nat.zero_add]

end Supplies

/-! ## Places -/

namespace Beside

variable {s s' : ParseState} (h : e.Beside s s')
include h

theorem met {settings settings' : ParseSettings} (golf : settings'.golf = settings.golf) :
    (e.comparison settings settings' golf).Met s.current s'.current :=
  h.imp (fun h => h.1) fun h => ⟨h.1, h.2.2.1⟩

variable (hne : s.current.kind ≠ .eof)
include hne

theorem length_pos : 0 < s.rest.length :=
  (Place.supply h hne).2.length_pos

/-- What parses that are not at the edge take, and the place that they come to. -/
theorem exists_advance : ∃ t t' rest rest', nextSignificant? s.rest = some (t, rest) ∧
    s.advance = { s with current := t, previous := s.current, rest } ∧
    s'.advance = { s' with current := t', previous := s'.current, rest := rest' } ∧
    e.Place t rest t' rest' := by
  obtain ⟨t, t', rest, rest', ht, ht', hplace⟩ := (Place.supply h hne).2.next
  exact ⟨t, t', rest, rest', ht, ParseState.advance_some ht, ParseState.advance_some ht', hplace⟩

/-- Parses that are not at the edge stay in the same place. -/
theorem advance : e.Beside s.advance s'.advance ∧ s.advance.rest.length < s.rest.length := by
  obtain ⟨t, t', rest, rest', ht, hadvance, hadvance', hplace⟩ := exists_advance h hne
  rw [hadvance, hadvance']
  exact ⟨hplace, ParseState.length_of_nextSignificant? ht⟩

/-- What a look ahead found is current when a token is taken on both sides. -/
theorem found {kind : TokenKind} (hkind : s.nextKind.continues? = some kind) :
    s.nextKind = kind ∧ s'.nextKind = kind ∧ s.advance.current.kind = kind ∧
      e.Paired s.advance.current s'.advance.current := by
  have hcontinues : s'.nextKind.continues? = s.nextKind.continues? :=
    (Place.supply h hne).2.continues?_eq
  have heof : kind ≠ .eof := by
    rintro rfl
    rw [continues?_eq_some hkind] at hkind
    cases hkind
  have hnext := continues?_eq_some hkind
  have hcurrent : s.advance.current.kind = kind := by
    rw [ParseState.kind_current_advance (Place.terminated h) hne (hnext ▸ heof), hnext]
  exact ⟨hnext, continues?_eq_some (hcontinues.trans hkind), hcurrent,
    (Place.supply (advance h hne).1 (hcurrent ▸ heof)).1⟩

end Beside

end Edge

end Rulebook
