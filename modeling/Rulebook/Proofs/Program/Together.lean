import Rulebook.Proofs.Program.Abreast
import Rulebook.Proofs.Program.Rows

/-!
# Computations that go together

Two computations on the states of parses that are abreast go together if both succeed or both
fail, and leave the parses abreast. This is a congruence, so expressions and statements go together:
they come to equal trees, or fail on both sides, and stop at the seam at the latest.

Braces are taken by rules only, where one more or one less has to be closed.

## Main definitions

* `Seam.Both`: two computations ended, both with a result or both with an error
* `Seam.Together`: two computations end so whenever they begin in related states
* `Seam.together`: computations that go together, as a congruence

## Main results

* `Seam.Together.bind`: computations that go together one behind the other
* `Seam.advance_together`: tokens that are taken on both sides
* `Seam.nested_together`, `Seam.Both.inRule`: productions inside of others
* `Seam.statement_together`: statements go together, and take at least one token
-/

namespace Rulebook

namespace Seam

open Parse

variable {α β γ δ : Type}

/-! ## The judgement -/

section Judgement

/-- Two computations ended, both with results or both with errors. Results are related and states
too; where there is no result, the states are abreast. Or the first one came to its end in the body
of a rule, in which the second one may go on. -/
inductive Both (m : Seam) (k : Nat) (R : ParseState → ParseState → Prop) (Q : α → β → Prop) :
    EStateM.Result Error ParseState α → EStateM.Result Error ParseState β → Prop
  | ok {t t' : ParseState} {a : α} {b : β} (h : R t t') (hq : Q a b) :
    Both m k R Q (.ok a t) (.ok b t')
  | error {n : Nat} {t t' : ParseState} {e e' : Error} (h : m.Abreast k n t t') :
    Both m k R Q (.error e t) (.error e' t')
  | hidden {t : ParseState} {e : Error} {r : EStateM.Result Error ParseState β} (h : m.Hides)
    (heof : t.current.kind = .eof) (he : e.IsUnclosedRule) : Both m k R Q (.error e t) r

/-- From related states two computations come to related results and states, or both to errors,
in front of which at least `k` braces are still open. -/
def Together (m : Seam) (k : Nat) (R R' : ParseState → ParseState → Prop) (x : Parse α)
    (y : Parse β) (Q : α → β → Prop) : Prop :=
  ∀ s s', R s s' → Both m k R' Q (EStateM.run x s) (EStateM.run y s')

variable {m : Seam} {k : Nat} {R R₁ R' : ParseState → ParseState → Prop} {P : γ → δ → Prop}
  {Q Q' : α → β → Prop} {x : Parse α} {y : Parse β}

theorem Together.pure {a : α} {b : β} (h : Q a b) : m.Together k R R (pure a) (pure b) Q :=
  fun _ _ hs => .ok hs h

/-- What comes behind two computations that ended so. -/
theorem Both.bind {x : Parse γ} {y : Parse δ} {f : γ → Parse α} {g : δ → Parse β}
    {s s' : ParseState} (hx : m.Both k R₁ P (EStateM.run x s) (EStateM.run y s'))
    (hf : ∀ a b, P a b → m.Together k R₁ R' (f a) (g b) Q) :
    m.Both k R' Q (EStateM.run (x >>= f) s) (EStateM.run (y >>= g) s') := by
  rw [EStateM.run_bind, EStateM.run_bind]
  generalize EStateM.run x s = r at hx
  generalize EStateM.run y s' = r' at hx
  cases hx with
  | ok h hq => exact hf _ _ hq _ _ h
  -- Neither computation goes on, or not the first one.
  | error h => exact .error h
  | hidden h heof he => exact .hidden h heof he

theorem Together.bind {x : Parse γ} {y : Parse δ} {f : γ → Parse α} {g : δ → Parse β}
    (hx : m.Together k R R₁ x y P) (hf : ∀ a b, P a b → m.Together k R₁ R' (f a) (g b) Q) :
    m.Together k R R' (x >>= f) (y >>= g) Q :=
  fun s s' hs => (hx s s' hs).bind hf

/-- The states at the start may be more closely related. -/
theorem Together.pre (h : m.Together k R₁ R' x y Q) (hR : ∀ s s', R s s' → R₁ s s') :
    m.Together k R R' x y Q :=
  fun s s' hs => h s s' (hR s s' hs)

/-- The states at the end, and the results, may be less closely related. -/
theorem Both.post {r : EStateM.Result Error ParseState α} {r' : EStateM.Result Error ParseState β}
    (h : m.Both k R₁ Q r r') (hR : ∀ s s', R₁ s s' → R' s s') (hQ : ∀ a b, Q a b → Q' a b) :
    m.Both k R' Q' r r' := by
  cases h with
  | ok h hq => exact .ok (hR _ _ h) (hQ _ _ hq)
  | error h => exact .error h
  | hidden h heof he => exact .hidden h heof he

theorem Together.post (h : m.Together k R R₁ x y Q) (hR : ∀ s s', R₁ s s' → R' s s')
    (hQ : ∀ a b, Q a b → Q' a b) : m.Together k R R' x y Q' :=
  fun s s' hs => (h s s' hs).post hR hQ

/-- Fewer tokens may be left. -/
theorem Together.loosen {j n n' : Nat} (h : m.Together k R (m.Abreast j n) x y Q) (hn : n ≤ n') :
    m.Together k R (m.Abreast j n') x y Q :=
  h.post (fun _ _ hs => hs.mono (Nat.le_refl j) hn) fun _ _ hq => hq

/-- Tokens may have been taken before. -/
theorem Together.shorten {j n : Nat} (h : m.Together k (m.Abreast j n) R' x y Q) :
    m.Together k (m.Abreast j (n - 1)) R' x y Q :=
  h.pre fun _ _ hs => hs.mono (Nat.le_refl j) (Nat.sub_le n 1)

/-- More braces may be open where there is no result. -/
theorem Both.weaken {j : Nat} {r : EStateM.Result Error ParseState α}
    {r' : EStateM.Result Error ParseState β} (h : m.Both k R Q r r') (hj : j ≤ k) :
    m.Both j R Q r r' := by
  cases h with
  | ok h hq => exact .ok h hq
  | error h => exact .error (h.mono hj (Nat.le_refl _))
  | hidden h heof he => exact .hidden h heof he

theorem Together.ite {c : Prop} [Decidable c] {x₁ x₂ : Parse α} {y₁ y₂ : Parse β}
    (h₁ : m.Together k R R' x₁ y₁ Q) (h₂ : m.Together k R R' x₂ y₂ Q) :
    m.Together k R R' (if c then x₁ else x₂) (if c then y₁ else y₂) Q := by
  split
  · exact h₁
  · exact h₂

theorem Together.throw {n : Nat} {e e' : Error} (h : ∀ s s', R s s' → m.Abreast k n s s') :
    m.Together k R R' (throw e : Parse α) (throw e' : Parse β) Q :=
  fun s s' hs => .error (h s s' hs)

/-- Computations that depend on the states that they begin with. -/
theorem Together.get {f : ParseState → Parse α} {g : ParseState → Parse β}
    (h : ∀ s s', R s s' → m.Together k (fun t t' => t = s ∧ t' = s') R' (f s) (g s') Q) :
    m.Together k R R' (MonadState.get >>= f) (MonadState.get >>= g) Q :=
  fun s s' hs => h s s' hs s s' ⟨rfl, rfl⟩

end Judgement

/-! ## Taking tokens -/

section Tokens

variable {m : Seam} {j k k' n : Nat} {R R' : ParseState → ParseState → Prop} {t t' : Token}
  {Q : α → β → Prop}

/-- The current tokens are paired, or they are at the seam. -/
theorem current_together_stop {f : Token → Parse α} {g : Token → Parse β}
    (hinside : ∀ t t', m.Paired t t' → m.Together j (m.At k n t t') R' (f t) (g t') Q)
    (hstopped : ∀ t : Token, t.kind = .eof →
      m.Together j (fun s s' => m.Abreast k n s s' ∧ s.current.kind = .eof) R' (f t) (g m.stop) Q) :
    m.Together j (m.Abreast k n) R' (current >>= f) (current >>= g) Q := by
  intro s s' hs
  rcases hs.place with ⟨ht, -⟩ | ⟨ht, -, ht', -⟩
  · exact hinside _ _ ht s s' ⟨hs, rfl, rfl⟩
  · have h := hstopped _ ht s s' ⟨hs, ht⟩
    have hcurrent : s'.current = m.stop := ht'
    rwa [← hcurrent] at h

/-- The current tokens are paired, or they delimit the items on both sides. -/
theorem current_together {f : Token → Parse α} {g : Token → Parse β}
    (hinside : ∀ t t', m.Paired t t' → m.Together j (m.At k n t t') R' (f t) (g t') Q)
    (hstopped : ∀ t : Token, t.kind = .eof →
      m.Together j (m.Abreast k n) R' (f t) (g m.stop) Q) :
    m.Together j (m.Abreast k n) R' (current >>= f) (current >>= g) Q :=
  current_together_stop hinside fun t ht => (hstopped t ht).pre fun _ _ hs => hs.1

theorem current_together_at {f : Token → Parse α} {g : Token → Parse β}
    (h : m.Together j (m.At k n t t') R' (f t) (g t') Q) :
    m.Together j (m.At k n t t') R' (current >>= f) (current >>= g) Q := by
  rintro s s' ⟨hs, rfl, rfl⟩
  exact h s s' ⟨hs, rfl, rfl⟩

/-- Tokens that are paired are taken together. -/
theorem advance_together (ht : m.Paired t t') (hk : k' ≤ countBrace k t.kind) :
    m.Together j (m.At k n t t') (m.Abreast k' (n - 1)) advance advance fun _ _ => True :=
  fun _ _ hs => .ok (hs.advance ht hk) trivial

/-- Other tokens than closing braces leave as many braces open. -/
theorem take_together (ht : m.Paired t t') (hbrace : t.kind ≠ .rbrace) :
    m.Together j (m.At k n t t') (m.Abreast k (n - 1)) advance advance fun _ _ => True :=
  advance_together ht (le_countBrace hbrace k)

/-- A brace that has to be there. -/
theorem expectBrace_together (kind : TokenKind) (hstop : kind.delimits = false)
    {what : String} (hj : j ≤ k) (hk : k' ≤ countBrace k kind) :
    m.Together j (m.Abreast k n) (m.Abreast k' n) (expect kind what) (expect kind what)
      fun _ _ => True := by
  have hfail : m.Together j (m.Abreast k n) (m.Abreast k' n) (failExpecting what : Parse Token)
      (failExpecting what : Parse Token) fun _ _ => True :=
    fun s s' hs => .error (hs.mono hj (Nat.le_refl n))
  show m.Together j (m.Abreast k n) (m.Abreast k' n)
    (current >>= fun t => if t.kind == kind then advance else failExpecting what)
    (current >>= fun t => if t.kind == kind then advance else failExpecting what) fun _ _ => True
  refine current_together (fun t t' ht => ?_) fun t ht => ?_
  · rw [ht.kind]
    cases hc : t.kind == kind with
    | true =>
      rw [← beq_iff_eq.1 hc] at hk
      exact (advance_together ht hk).loosen (Nat.sub_le n 1)
    | false => exact hfail.pre fun _ _ hs => hs.1
  -- No brace is at the seam.
  · have hneither {u : Token} (hu : u.kind.delimits = true) : (u.kind == kind) = false := by
      refine beq_eq_false_iff_ne.2 ?_
      rintro rfl
      cases hstop.symm.trans hu
    rw [hneither (ht ▸ rfl), hneither m.delimits_stop]
    exact hfail

end Tokens

/-! ## Limits and nodes -/

section Limits

variable {m : Seam} {j k n : Nat} {R' : ParseState → ParseState → Prop} {t t' : Token}
  {Q : α → β → Prop} {settings : ParseSettings}

/-- The number of tokens that are left is known on both sides. -/
theorem remaining_together {f : ParseState → Parse α} {g : ParseState → Parse β}
    (h : ∀ s s' l, l ≤ n → l < s.remaining → l < s'.remaining →
      m.Together j (m.Abreast k l) R' (f s) (g s') Q) :
    m.Together j (m.Abreast k n) R' (MonadState.get >>= f) (MonadState.get >>= g) Q :=
  fun s s' hs =>
    h s s' s.rest.length hs.length (Nat.lt_succ_self _) (Nat.lt_succ_of_le hs.length_le) s s'
      { hs with length := Nat.le_refl _ }

theorem checkHeight_together {height height' : Nat} (hj : j ≤ k) (h : height = height') :
    m.Together j (m.Abreast k n) (m.Abreast k n) (checkHeight height) (checkHeight height')
      fun _ _ => True := by
  subst h
  refine Together.get fun s s' hs => ?_
  -- As many rules enclose the tree on both sides.
  rw [hs.nesting]
  have hcheck : m.Together j (m.Abreast k n) (m.Abreast k n)
      (if heightLimit s.nesting < height then throw (.tooDeep "parser" maxTreeDepth) else pure ())
      (if heightLimit s.nesting < height then throw (.tooDeep "parser" maxTreeDepth) else pure ())
      fun _ _ => True :=
    .ite (.throw fun _ _ hs => hs.mono hj (Nat.le_refl n)) (.pure trivial)
  refine hcheck.pre ?_
  rintro _ _ ⟨rfl, rfl⟩
  exact hs

theorem Abreast.mapDepth {s s' : ParseState} (hs : m.Abreast k n s s') (f : Nat → Nat) :
    m.Abreast k n { s with depth := f s.depth } { s' with depth := f s'.depth } :=
  ⟨congrArg f hs.depth, hs.nesting, hs.errors, hs.place, hs.braces, hs.length⟩

theorem Abreast.mapNesting {s s' : ParseState} (hs : m.Abreast k n s s') (f : Nat → Nat) :
    m.Abreast k n { s with nesting := f s.nesting } { s' with nesting := f s'.nesting } :=
  ⟨hs.depth, congrArg f hs.nesting, hs.errors, hs.place, hs.braces, hs.length⟩

/-- Where a production is refused on one side it is refused on the other. -/
theorem nested_together {l : Nat} {front : Front} {x : Parse α} {y : Parse β}
    (h : m.Together k (m.Before k n front) (m.Abreast k l) x y Q) :
    m.Together k (m.Before k n front) (m.Abreast k l) (nested settings x) (nested settings y)
      Q := by
  intro s s' hs
  have h := h _ _ ⟨hs.1.mapDepth (· + 1), by cases front <;> exact hs.2⟩
  -- The depths are equal, and so are the limits.
  simp only [EStateM.run, nested, hs.1.depth] at h ⊢
  split
  · exact .error hs.1
  · generalize x _ = r, y _ = r' at h
    cases h with
    | ok h hq => exact .ok (h.mapDepth (· - 1)) hq
    | error h => exact .error (h.mapDepth (· - 1))
    | hidden h heof he => exact .hidden h heof he

theorem Both.inRule {n' : Nat} {x : Parse α} {y : Parse β} {s s' : ParseState}
    (hs : m.Abreast k n s s') (h : m.Both j (m.Abreast k n') Q
      (EStateM.run x { s with nesting := s.nesting + 1 })
      (EStateM.run y { s' with nesting := s'.nesting + 1 })) :
    m.Both j (m.Abreast k n') Q (EStateM.run (inRule x) s) (EStateM.run (inRule y) s') := by
  simp only [EStateM.run, Parse.inRule, hs.nesting] at h ⊢
  generalize x _ = r, y _ = r' at h
  cases h with
  | ok h hq => exact .ok (h.mapNesting (· - 1)) hq
  | error h => exact .error (h.mapNesting (· - 1))
  | hidden h heof he => exact .hidden h heof he

end Limits

/-! ## The congruence -/

section Congruence

variable (m : Seam) (k : Nat) (settings : ParseSettings)

/-- Computations that go together, with as many braces open behind them as before. -/
def together : Congruence (m.edge.comparison settings settings rfl) (List Token) (List Token) where
  room _ := True
  room_mono _ _ := trivial
  Rel n front l Q x y := m.Together k (m.Before k n front) (m.Abreast k l) x y Q
  pure h := fun _ _ hs => .ok hs.1 h
  bind hx hf := hx.bind fun a b hab => (hf a b hab).pre fun _ _ hs => ⟨hs, trivial⟩
  weaken h hl hQ := h.post (fun _ _ hs => hs.mono (Nat.le_refl k) hl) hQ
  coarsen h := h.pre fun _ _ hs => ⟨hs.1, trivial⟩
  current h := fun s s' hs =>
    h s.current s'.current (hs.1.place.met rfl)
      (fun ht => At.pos (s := s) (t := s.current) ⟨hs.1, rfl, rfl⟩ ht) s s' ⟨hs.1, rfl, rfl⟩
  look h := current_together_at h
  take ht hbrace _ h := by
    rintro s s' ⟨hs, rfl, rfl⟩
    have hat : m.At k _ s.current s'.current s s' := ⟨hs, rfl, rfl⟩
    exact h (hat.pos ht) s.advance s'.advance ⟨hat.advance ht (le_countBrace hbrace k), trivial⟩
  ahead {α β n l t t' name Q f g} ht hname hfound hplain := by
    rintro s s' ⟨hs, rfl, rfl⟩
    have hne : s.current.kind ≠ .eof := by simp [hname]
    have hadvanced : m.Abreast k (n - 1) s.advance s'.advance :=
      At.advance ⟨hs, rfl, rfl⟩ ht (le_countBrace (by simp [hname]) k)
    show m.Both k _ Q (EStateM.run (f s.nextKind) s.advance)
      (EStateM.run (g s'.nextKind) s'.advance)
    cases hkind : s.nextKind.continues? with
    | none =>
      have hcontinues : s'.nextKind.continues? = s.nextKind.continues? :=
        (Edge.Place.supply hs.place hne).2.continues?_eq
      exact hplain _ _ hkind (hcontinues.trans hkind) _ _ ⟨hadvanced, trivial⟩
    | some kind =>
      obtain ⟨hnext, hnext', hcurrent, hpaired⟩ := hs.place.found hne hkind
      rw [hnext] at hkind
      rw [hnext, hnext']
      exact hfound kind hkind _ _ hpaired hcurrent _ _ ⟨hadvanced, rfl, rfl⟩
  remaining h := fun s s' hs =>
    h s.rest.length s.remaining s'.remaining hs.1.length (Nat.lt_succ_self _)
      (Nat.lt_succ_of_le hs.1.length_le) s s' ⟨{ hs.1 with length := Nat.le_refl _ }, hs.2⟩
  make h := fun s s' hs =>
    .ok ⟨hs.1.depth, hs.1.nesting, hs.1.errors, hs.1.place, hs.1.braces, hs.1.length⟩
      (h _ _ False.elim)
  checkHeight _ := (checkHeight_together (Nat.le_refl k) rfl).pre fun _ _ hs => hs.1
  fail _ _ := fun _ _ hs => .error hs.1
  stuck ht hbreak _ := by
    have hkind : _ = m.stop.kind := congrArg Token.kind ht.2
    rw [hkind] at hbreak
    rcases m.isStop with h | h | h <;> rw [h] at hbreak <;> cases hbreak

theorem together_nests : (m.together k settings).Nests Eq where
  below h := Nat.succ.inj h
  nested _ := nested_together
  neither _ := fun _ _ hs => .error hs.1
  left h := nomatch h
  right h := nomatch h

variable {m k settings} {n l : Nat} {Q : α → β → Prop}

/-- What the congruence says wherever two parses are abreast. -/
theorem Together.of_rel {x : Parse α} {y : Parse β}
    (h : (m.together k settings).Rel n .anywhere l Q x y) :
    m.Together k (m.Abreast k n) (m.Abreast k l) x y Q :=
  h.pre fun _ _ hs => ⟨hs, trivial⟩

/-- Statements are read in lockstep, and take at least one token. -/
theorem statement_together (levels : Nat) :
    m.Together k (m.Abreast k n) (m.Abreast k (n - 1)) (statement settings (expr settings levels))
      (statement settings (expr settings levels)) Node.Alike := by
  have hnests := m.together_nests k settings
  have h : (m.together k settings).Rel n .anywhere (n - 1) _
      (statement settings (expr settings levels)) (statement settings (expr settings levels)) :=
    statement_rel (fun _ strength context => expr_rel hnests rfl strength context)
      fun _ hkind strength context => stuck_expr hkind levels strength context
  exact (Together.of_rel h).post (fun _ _ hs => hs) fun _ _ h => h.1

end Congruence

end Seam

end Rulebook
