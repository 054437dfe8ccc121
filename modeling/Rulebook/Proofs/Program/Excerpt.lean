import Rulebook.Proofs.Program.Edge

/-!
# Expressions in front of a break

One parse reads the tokens of a text up to its end, another one the same tokens in front of a comma
or a closing parenthesis, at other places and possibly deeper inside of other productions. No
expression goes past such a token, so where both come to a tree they come to equal ones.

Unlike at a seam the two parses do not have to succeed or fail together: a list that is open at the
end of the text alone may be closed by the parenthesis that follows. What is compared are two runs
that both succeed.

## Main definitions

* `Excerpt`: the token of the second parse in whose place the first one ends
* `Excerpt.Beside`: two states with the same tokens up to that place
* `Excerpt.Matches`: if two computations come to results, these are related

## Main results

* `Excerpt.expr_matches`: an expression is read alone as in front of a break
-/

namespace Rulebook

open Parse

/-- The token of a parse in whose place another parse ends, with the tokens behind it. -/
structure Excerpt where
  stop : Token
  after : List Token
  isStop : stop.kind.breaks = true

namespace Excerpt

variable (m : Excerpt)

/-- The same token in two parses. -/
structure Paired (t t' : Token) : Prop where
  kind : t'.kind = t.kind
  proper : t.kind.IsProper

/-- Up to the break the tokens of two parses are the same. -/
def edge : Edge :=
  ⟨Paired, m.stop, m.after, fun h => h.kind, fun h => h.proper, .inr m.isStop⟩

/-- Two parses are in the same place; at most `n` tokens are left in the first one. -/
structure Beside (n : Nat) (s s' : ParseState) : Prop where
  place : m.edge.Beside s s'
  length : s.rest.length ≤ n

/-- If two computations come to results from the same place, then the results are related, and they
are in the same place again. -/
def Matches {α β : Type} (n : Nat) (front : Front) (l : Nat) (Q : α → β → Prop) (x : Parse α)
    (y : Parse β) : Prop :=
  ∀ ⦃s s' t t' a b⦄, m.Beside n s s' → front.Holds s s' → EStateM.run x s = .ok a t →
    EStateM.run y s' = .ok b t' → m.Beside l t t' ∧ Q a b

variable {m}

/-! ## States -/

section States

variable {n n' : Nat} {s s' : ParseState}

/-- Two parses that come to the next tokens of the same supply. -/
theorem beside_of_supply {tokens tokens' : List Token} (h : m.edge.Supply tokens tokens')
    (hs : nextSignificant? tokens = some (s.current, s.rest))
    (hs' : nextSignificant? tokens' = some (s'.current, s'.rest)) :
    m.Beside s.rest.length s s' := by
  obtain ⟨t, t', rest, rest', ht, ht', hplace⟩ := h.next
  rw [ht, Option.some.injEq, Prod.mk.injEq] at hs
  rw [ht', Option.some.injEq, Prod.mk.injEq] at hs'
  obtain ⟨rfl, rfl⟩ := hs
  obtain ⟨rfl, rfl⟩ := hs'
  exact ⟨hplace, Nat.le_refl _⟩

theorem Beside.mono (h : m.Beside n s s') (hn : n ≤ n') : m.Beside n' s s' :=
  ⟨h.place, h.length.trans hn⟩

theorem Beside.pos (h : m.Beside n s s') (hne : s.current.kind ≠ .eof) : 0 < n :=
  (h.place.length_pos hne).trans_le h.length

/-- Parses that are not at the break stay in the same place. -/
theorem Beside.advance (h : m.Beside n s s') (hne : s.current.kind ≠ .eof) :
    m.Beside (n - 1) s.advance s'.advance := by
  obtain ⟨hplace, hlt⟩ := h.place.advance hne
  have hle := h.length
  exact ⟨hplace, by omega⟩

end States

/-! ## The congruence -/

/-- A limit that is kept changes nothing. -/
theorem run_checkHeight_eq {height : Nat} {s t : ParseState} {a : Unit}
    (h : EStateM.run (checkHeight height) s = .ok a t) : t = s := by
  have hcheck : EStateM.run (checkHeight height) s =
      if heightLimit s.nesting < height then .error (.tooDeep "parser" maxTreeDepth) s
      else .ok () s := by
    show EStateM.run (if heightLimit s.nesting < height then _ else _) s = _
    split <;> rfl
  rw [hcheck] at h
  split at h
  · cases h
  · cases h
    rfl

variable (m) {settings settings' : ParseSettings} (golf : settings'.golf = settings.golf)

/-- Computations that match wherever both come to results. -/
def matching :
    Congruence (m.edge.comparison settings settings' golf) (List Token) (List Token) where
  room _ := True
  room_mono _ _ := trivial
  Rel n front l Q x y := m.Matches n front l Q x y
  pure h := by
    rintro s s' _ _ _ _ hs - ⟨⟩ ⟨⟩
    exact ⟨hs, h⟩
  bind hx hf := by
    intro s s' t t' a b hs hfront hleft hright
    obtain ⟨c, u, hc, hleft⟩ := exists_of_run_bind hleft
    obtain ⟨d, u', hd, hright⟩ := exists_of_run_bind hright
    obtain ⟨hu, hcd⟩ := hx hs hfront hc hd
    exact hf c d hcd hu trivial hleft hright
  weaken h hl hQ := by
    intro s s' t t' a b hs hfront hleft hright
    obtain ⟨ht, hq⟩ := h hs hfront hleft hright
    exact ⟨ht.mono hl, hQ a b hq⟩
  coarsen h := fun s s' t t' a b hs _ => h hs trivial
  current h := fun s s' t t' a b hs _ =>
    h s.current s'.current (hs.place.met golf) (fun ht => hs.pos ht.proper.ne_eof) hs ⟨rfl, rfl⟩
  look h := by
    rintro s s' t t' a b hs ⟨rfl, rfl⟩
    exact h hs ⟨rfl, rfl⟩
  take ht _ _ h := by
    rintro s s' t t' a b hs ⟨rfl, rfl⟩
    have hne := ht.proper.ne_eof
    exact h (hs.pos hne) (hs.advance hne) trivial
  ahead {α β n l t t' name Q f g} ht hname hfound hplain := by
    rintro s s' u u' a b hs ⟨rfl, rfl⟩ hleft hright
    have hne := ht.proper.ne_eof
    have hleft : EStateM.run (f s.nextKind) s.advance = .ok a u := hleft
    have hright : EStateM.run (g s'.nextKind) s'.advance = .ok b u' := hright
    cases hkind : s.nextKind.continues? with
    | none =>
      -- What a look ahead finds may differ at the break, though not so that it counts.
      have hcontinues : s'.nextKind.continues? = s.nextKind.continues? :=
        (Edge.Place.supply hs.place hne).2.continues?_eq
      exact hplain _ _ hkind (hcontinues.trans hkind) (hs.advance hne) trivial hleft hright
    | some kind =>
      obtain ⟨hnext, hnext', hcurrent, hpaired⟩ := hs.place.found hne hkind
      rw [hnext] at hkind hleft
      rw [hnext'] at hright
      exact hfound kind hkind _ _ hpaired hcurrent (hs.advance hne) ⟨rfl, rfl⟩ hleft hright
  remaining h := by
    intro s s' t t' a b hs
    have hle : s.rest.length ≤ s'.rest.length := Nat.le_of_add_right_le hs.place.length_add_le
    exact h s.rest.length s.remaining s'.remaining hs.length (Nat.lt_succ_self _)
      (Nat.lt_succ_of_le hle) ⟨hs.place, Nat.le_refl _⟩
  make h := by
    rintro s s' _ _ _ _ hs - ⟨⟩ ⟨⟩
    exact ⟨⟨hs.place, hs.length⟩, h _ _ False.elim⟩
  checkHeight _ := by
    intro s s' t t' _ _ hs _ hleft hright
    rw [run_checkHeight_eq hleft, run_checkHeight_eq hright]
    exact ⟨hs, trivial⟩
  -- Where the first parse fails, or is at its end in front of a break, there is nothing to compare.
  fail _ _ := fun s _ t _ a _ _ _ hleft => absurd hleft (stuck_failHere _ s rfl a t)
  stuck ht _ hstuck := by
    rintro s s' t t' a b - ⟨rfl, rfl⟩ hleft
    exact absurd hleft (hstuck s ht.1 a t)

/-- However many levels are left on either side, refused productions come to no result. -/
theorem matching_nests : (m.matching golf).Nests fun _ _ => True where
  below _ := trivial
  nested _ := by
    intro n l front α β Q x y h s s' t t' a b hs hfront hleft hright
    obtain ⟨u, hx, rfl⟩ := exists_of_run_nested hleft
    obtain ⟨u', hy, rfl⟩ := exists_of_run_nested hright
    have hdeeper : m.Beside n { s with depth := s.depth + 1 } { s' with depth := s'.depth + 1 } :=
      ⟨hs.place, hs.length⟩
    obtain ⟨hu, hq⟩ := h hdeeper (by cases front <;> exact hfront) hx hy
    exact ⟨⟨hu.place, hu.length⟩, hq⟩
  neither _ := by
    rintro n l front α β Q s s' t t' a b - - ⟨⟩
  left _ := by
    rintro n l front α β Q x s s' t t' a b - - - ⟨⟩
  right _ := by
    rintro n l front α β Q y s s' t t' a b - - ⟨⟩

variable {m}

include golf in
/-- An expression is read alone as in front of a break, however deeply either is nested. -/
theorem expr_matches {n : Nat} (levels levels' strength : Nat) (context : ReadContext) :
    m.Matches n .anywhere (n - 1) Node.Alike (expr settings levels strength context)
      (expr settings' levels' strength context) := by
  have h : (m.matching golf).Rel n .anywhere (n - 1) _ (expr settings levels strength context)
      (expr settings' levels' strength context) :=
    expr_rel (m.matching_nests golf) trivial strength context
  intro s s' t t' a b hs hfront hleft hright
  obtain ⟨ht, hq⟩ := h hs hfront hleft hright
  exact ⟨ht, hq.1⟩

end Excerpt

end Rulebook
