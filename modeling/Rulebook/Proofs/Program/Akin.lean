import Rulebook.Program.Item
import Rulebook.Proofs.Program.Supply

/-!
# Computations of one shape

Two computations on states of a parse are akin if they are put together in the same way: they look
at the same of their states, take tokens in the same places, and differ at most in the identities
and the places of the nodes that they make. The judgement has one rule for each of the things a
production is made of, and says how many significant tokens are left before and behind it. What
holds of all productions is then proved by induction over these rules.

## Main definitions

* `Error.PlacedAt`: an error stands where a token does
* `Parse.Known`: what is known of the current token, and of what a look ahead finds
* `Parse.Akin`: two computations of one shape
* `Parse.ComesTo`: how the first of such computations ends
* `Parse.LevelEnds`: how such computations end in states that are level
* `Parse.EndsLevel`: the same, unless the first one meets a limit that the second one does not have

## Main results

* `Parse.Akin.ends`, `Parse.Akin.runs`: the ends that one of two akin computations can come to
* `Parse.Akin.endsLevel`: the ends of both, from states that are level
-/

namespace Rulebook

/-- An error of the source stands where a token does. Other errors have no place. -/
def Error.PlacedAt (t : Token) : Error → Prop
  | .malformed _ span line column => span = t.span ∧ line = t.line ∧ column = t.column
  | _ => True

namespace Parse

/-! ## The judgement -/

/-- What is known of the current token, and of the kind that a look ahead finds behind it. -/
abbrev Known := Token → TokenKind → Prop

namespace Known

/-- Any token may be the current one. -/
def nothing : Known := fun _ _ => True

/-- The current token is known, and what a look ahead finds. -/
def here (t : Token) (kind : TokenKind) : Known := fun u k => u = t ∧ k = kind

/-- The current token is the one that a look ahead found, if it found one. -/
def found (kind : TokenKind) : Known := fun u _ => kind ≠ .eof → u.kind = kind

end Known

/-- Two computations of one shape. The second one may be allowed to nest productions more deeply;
`loud` tells whether errors may be noted. At most `n` significant tokens are left before them, at
most `l` behind them if they come to results, and these are related by `Q`. -/
inductive Akin (settings settings' : ParseSettings) (loud : Prop) : {α β : Type} → (n l : Nat) →
    Known → (α → β → Prop) → Parse α → Parse β → Prop
  | pure {α β : Type} {n : Nat} {P : Known} {Q : α → β → Prop} {a : α} {b : β} (h : Q a b) :
    Akin settings settings' loud n n P Q (pure a) (pure b)
  /-- Computations fail where they are. -/
  | throw {α β : Type} {n l : Nat} {P : Known} {Q : α → β → Prop} (e : Error)
    (h : ∀ t k, P t k → e.PlacedAt t) :
    Akin settings settings' loud n l P Q (throw e : Parse α) (throw e : Parse β)
  /-- Where the second computation may go on, the first one is refused. -/
  | refused {α β : Type} {n l : Nat} {P : Known} {Q : α → β → Prop} {y : Parse β}
    (h : settings.maxDepth < settings'.maxDepth) :
    Akin settings settings' loud n l P Q (throw (.tooDeep "parser" settings.maxDepth) : Parse α) y
  | weaken {α β : Type} {n n' l l' : Nat} {P P' : Known} {Q Q' : α → β → Prop} {x : Parse α}
    {y : Parse β} (h : Akin settings settings' loud n' l' P' Q' x y) (hn : n ≤ n') (hl : l' ≤ l)
    (hP : ∀ t k, P t k → P' t k) (hQ : ∀ a b, Q' a b → Q a b) :
    Akin settings settings' loud n l P Q x y
  | bind {α β γ δ : Type} {n m l : Nat} {P : Known} {R : γ → δ → Prop} {Q : α → β → Prop}
    {x : Parse γ} {y : Parse δ} {f : γ → Parse α} {g : δ → Parse β}
    (hx : Akin settings settings' loud n m P R x y)
    (hf : ∀ a b, R a b → Akin settings settings' loud m l .nothing Q (f a) (g b)) :
    Akin settings settings' loud n l P Q (x >>= f) (y >>= g)
  /-- States that are looked at are level. -/
  | get {α β : Type} {n l : Nat} {P : Known} {Q : α → β → Prop} {f : ParseState → Parse α}
    {g : ParseState → Parse β}
    (h : ∀ s s' : ParseState, s.Level s' → s.left ≤ n → P s.current s.nextKind →
      Akin settings settings' loud s.left l (.here s.current s.nextKind) Q (f s) (g s')) :
    Akin settings settings' loud n l P Q (MonadState.get >>= f) (MonadState.get >>= g)
  /-- Tokens other than the end are taken. -/
  | advance {α β : Type} {n l : Nat} {P : Known} {Q : α → β → Prop} {f : Token → Parse α}
    {g : Token → Parse β} (hP : ∀ t k, P t k → t.kind ≠ .eof)
    (h : ∀ t k, P t k → 0 < n →
      Akin settings settings' loud (n - 1) l (.found k) Q (f t) (g t)) :
    Akin settings settings' loud n l P Q (advance >>= f) (advance >>= g)
  | make {n : Nat} {P : Known} {Q : Node → Node → Prop} {node node' : Fresh Node}
    {span span' : Span} {line line' : Nat}
    (h : ∀ id id', Q ((node id).1.withSpan span line) ((node' id').1.withSpan span' line')) :
    Akin settings settings' loud n n P Q (make node span line) (make node' span' line')
  | nested {α β : Type} {n l : Nat} {P : Known} {Q : α → β → Prop} {x : Parse α} {y : Parse β}
    (h : Akin settings settings' loud n l P Q x y) :
    Akin settings settings' loud n l P Q (nested settings x) (nested settings' y)
  | inRule {α β : Type} {n l : Nat} {P : Known} {Q : α → β → Prop} {x : Parse α} {y : Parse β}
    (h : Akin settings settings' loud n l P Q x y) :
    Akin settings settings' loud n l P Q (inRule x) (inRule y)
  /-- An error is noted, of a computation that took no token, or took one at least. -/
  | attempt {α β γ δ : Type} {n m l : Nat} {P : Known} {R : γ → δ → Prop} {Q : α → β → Prop}
    {x : Parse γ} {y : Parse δ} {f : Except Error γ → Parse α} {g : Except Error δ → Parse β}
    {f' : Error → Parse α} {g' : Error → Parse β} (hloud : loud)
    (hf : ∀ e, f (.error e) = report e >>= fun _ => f' e)
    (hg : ∀ e, g (.error e) = report e >>= fun _ => g' e)
    (hx : Akin settings settings' loud n m P R x y)
    (hok : ∀ a b, R a b → Akin settings settings' loud m l .nothing Q (f (.ok a)) (g (.ok b)))
    (hstill : ∀ e, Akin settings settings' loud n l P Q (f' e) (g' e))
    (hmoved : ∀ e, Akin settings settings' loud (n - 1) l .nothing Q (f' e) (g' e)) :
    Akin settings settings' loud n l P Q (attempt x >>= f) (attempt y >>= g)

/-! ## Single runs -/

section Runs

/-- Tokens were taken, or none, and errors may have been noted. None was taken back. Productions
and rules that were begun have been left again. -/
structure Proceeds (s t : ParseState) : Prop where
  moved : s.Moved t
  noted : ∀ e ∈ s.errors, e ∈ t.errors
  depth : t.depth = s.depth
  nesting : t.nesting = s.nesting

theorem Proceeds.refl (s : ParseState) : Proceeds s s :=
  ⟨.refl s, fun _ he => he, rfl, rfl⟩

theorem Proceeds.trans {s t u : ParseState} (h : Proceeds s t) (h' : Proceeds t u) :
    Proceeds s u :=
  ⟨h.moved.trans h'.moved, fun e he => h'.noted e (h.noted e he), h'.depth.trans h.depth,
    h'.nesting.trans h.nesting⟩

variable {α β : Type} {l : Nat}

/-- A computation ended, with a result of some sort or with an error. -/
inductive ComesTo (l : Nat) (s : ParseState) (Q : α → Prop) :
    EStateM.Result Error ParseState α → Prop
  | ok {t : ParseState} {a : α} (ht : Terminated (t.current :: t.rest)) (hm : Proceeds s t)
    (hl : t.left ≤ l) (hq : Q a) : ComesTo l s Q (.ok a t)
  | error {t : ParseState} {e : Error} (ht : Terminated (t.current :: t.rest))
    (hm : Proceeds s t) : ComesTo l s Q (.error e t)

theorem ComesTo.trans {s t : ParseState} {Q : α → Prop} {r : EStateM.Result Error ParseState α}
    (hm : Proceeds s t) (h : ComesTo l t Q r) : ComesTo l s Q r := by
  cases h with
  | ok ht hm' hl hq => exact .ok ht (hm.trans hm') hl hq
  | error ht hm' => exact .error ht (hm.trans hm')

/-- At the place where a computation began, the same is known as before it. -/
theorem known_of_moved {s t : ParseState} {n : Nat} {P : Known} (hm : s.Moved t) (hn : s.left ≤ n)
    (hP : P s.current s.nextKind) : t.left ≤ n ∧ P t.current t.nextKind ∨ t.left ≤ n - 1 := by
  rcases hm with ⟨hcurrent, hrest⟩ | ⟨hlt, -⟩
  · refine .inl ⟨?_, ?_⟩
    · rwa [ParseState.left, hrest]
    · rwa [hcurrent, ParseState.nextKind_eq, hrest]
  · exact .inr (Nat.le_sub_one_of_lt (hlt.trans_le hn))

theorem proceeds_report (e : Error) (s : ParseState) :
    Proceeds s { s with errors := s.errors.push e } :=
  ⟨.refl s, fun _ he => Array.mem_push_of_mem e he, rfl, rfl⟩

theorem proceeds_advance {s : ParseState} (h : Terminated (s.current :: s.rest))
    (hne : s.current.kind ≠ .eof) : Proceeds s s.advance := by
  obtain ⟨u, rest, -, hadvance, -⟩ := ParseState.exists_advance h hne
  refine ⟨ParseState.moved_advance h hne, ?_, ?_, ?_⟩
  all_goals rw [hadvance]
  exact fun _ he => he

/-- A production that was begun a level deeper has left that level again. -/
theorem Proceeds.nested {s t : ParseState} (h : Proceeds { s with depth := s.depth + 1 } t) :
    Proceeds s { t with depth := t.depth - 1 } :=
  ⟨h.moved, h.noted, congrArg (· - 1) h.depth, h.nesting⟩

/-- The body of a rule that was begun has been left again. -/
theorem Proceeds.inRule {s t : ParseState} (h : Proceeds { s with nesting := s.nesting + 1 } t) :
    Proceeds s { t with nesting := t.nesting - 1 } :=
  ⟨h.moved, h.noted, h.depth, congrArg (· - 1) h.nesting⟩

/-- The first of two computations that are akin ends behind the place where it began, and keeps the
errors that were noted. -/
theorem Akin.ends {settings settings' : ParseSettings} {loud : Prop} {n : Nat} {P : Known}
    {Q : α → β → Prop} {x : Parse α} {y : Parse β} (h : Akin settings settings' loud n l P Q x y)
    {s : ParseState} (hs : Terminated (s.current :: s.rest)) (hn : s.left ≤ n)
    (hP : P s.current s.nextKind) : ComesTo l s (fun a => ∃ b, Q a b) (EStateM.run x s) := by
  induction h generalizing s with
  | pure h => exact .ok hs (.refl s) hn ⟨_, h⟩
  | throw e _ => exact .error hs (.refl s)
  | refused _ => exact .error hs (.refl s)
  | weaken _ hn' hl hP' hQ ih =>
    have h := ih hs (hn.trans hn') (hP' _ _ hP)
    generalize EStateM.run _ s = r at h ⊢
    cases h with
    | ok ht hm hl' hq => exact .ok ht hm (hl'.trans hl) (hq.imp fun b => hQ _ b)
    | error ht hm => exact .error ht hm
  | bind _ _ ihx ihf =>
    have h := ihx hs hn hP
    rw [EStateM.run_bind]
    generalize EStateM.run _ s = r at h ⊢
    cases h with
    | ok ht hm hl hq =>
      obtain ⟨b, hq⟩ := hq
      exact (ihf _ b hq ht hl trivial).trans hm
    | error ht hm => exact .error ht hm
  | get _ ih => exact ih s s (.refl hs) hn hP hs (Nat.le_refl _) ⟨rfl, rfl⟩
  | @advance _ _ n l P Q f g hP' _ ih =>
    have hne := hP' _ _ hP
    have hleft := ParseState.left_advance hs hne
    have hadvanced := ((ParseState.Level.refl hs).advance hne).terminated
    have h := ih s.current s.nextKind hP (by omega) hadvanced (by omega)
      (ParseState.kind_current_advance hs hne)
    show ComesTo l s _ (EStateM.run (f s.current) s.advance)
    exact h.trans (proceeds_advance hs hne)
  | make h =>
    exact .ok hs ⟨.inl ⟨rfl, rfl⟩, fun _ he => he, rfl, rfl⟩ hn ⟨_, h s.nextId s.nextId⟩
  | @nested _ _ n l P Q x y _ ih =>
    have h := ih (s := { s with depth := s.depth + 1 }) hs hn hP
    simp only [EStateM.run, Parse.nested] at h ⊢
    split
    · exact .error hs (.refl s)
    · generalize x _ = r at h ⊢
      cases h with
      | ok ht hm hl hq => exact .ok ht hm.nested hl hq
      | error ht hm => exact .error ht hm.nested
  | @inRule _ _ n l P Q x y _ ih =>
    have h := ih (s := { s with nesting := s.nesting + 1 }) hs hn hP
    simp only [EStateM.run, Parse.inRule] at h ⊢
    generalize x _ = r at h ⊢
    cases h with
    | ok ht hm hl hq => exact .ok ht hm.inRule hl hq
    | error ht hm => exact .error ht hm.inRule
  | attempt _ hf _ _ _ _ _ ihx ihok ihstill ihmoved =>
    have h := ihx hs hn hP
    generalize hr : EStateM.run _ s = r at h
    rw [EStateM.run_bind]
    cases h with
    | ok ht hm hl hq =>
      obtain ⟨b, hq⟩ := hq
      rw [run_attempt_ok hr]
      exact (ihok _ b hq ht hl trivial).trans hm
    | @error t e ht hm =>
      rw [run_attempt_error hr]
      dsimp only
      rw [hf, EStateM.run_bind, run_report]
      have hm' := hm.trans (proceeds_report e t)
      rcases known_of_moved hm.moved hn hP with ⟨hleft, hknown⟩ | hleft
      · exact (ihstill e (s := { t with errors := t.errors.push e }) ht hleft hknown).trans hm'
      · exact (ihmoved e (s := { t with errors := t.errors.push e }) ht hleft trivial).trans hm'

/-- Where a computation that is akin to another one ends: with a result that is related to some
other, or with an error. -/
theorem Akin.runs {settings settings' : ParseSettings} {loud : Prop} {n : Nat} {P : Known}
    {Q : α → β → Prop} {x : Parse α} {y : Parse β} (h : Akin settings settings' loud n l P Q x y)
    {s : ParseState} (hs : Terminated (s.current :: s.rest)) (hn : s.left ≤ n)
    (hP : P s.current s.nextKind) :
    (∃ a b t, EStateM.run x s = .ok a t ∧ Terminated (t.current :: t.rest) ∧ s.Moved t ∧
        t.left ≤ l ∧ Q a b) ∨
      ∃ e t, EStateM.run x s = .error e t ∧ Terminated (t.current :: t.rest) ∧ s.Moved t := by
  have hends := h.ends hs hn hP
  generalize EStateM.run x s = r at hends ⊢
  cases hends with
  | ok ht hm hl hq =>
    obtain ⟨b, hq⟩ := hq
    exact .inl ⟨_, b, _, rfl, ht, hm.moved, hl, hq⟩
  | error ht hm => exact .inr ⟨_, _, rfl, ht, hm.moved⟩

end Runs

/-! ## Runs from states that are level -/

section Level

variable {α β : Type} {l : Nat} {Q : α → β → Prop}

/-- Two computations ended, both with results that are related or both with the same error, and in
states that are level. -/
inductive LevelEnds (l : Nat) (s : ParseState) (Q : α → β → Prop) :
    EStateM.Result Error ParseState α → EStateM.Result Error ParseState β → Prop
  | ok {t t' : ParseState} {a : α} {b : β} (h : t.Level t') (hm : s.Moved t) (hl : t.left ≤ l)
    (hq : Q a b) : LevelEnds l s Q (.ok a t) (.ok b t')
  | error {t t' : ParseState} {e : Error} (h : t.Level t') (hm : s.Moved t) :
    LevelEnds l s Q (.error e t) (.error e t')

theorem LevelEnds.trans {s t : ParseState} {r : EStateM.Result Error ParseState α}
    {r' : EStateM.Result Error ParseState β} (hm : s.Moved t) (h : LevelEnds l t Q r r') :
    LevelEnds l s Q r r' := by
  cases h with
  | ok h hm' hl hq => exact .ok h (hm.trans hm') hl hq
  | error h hm' => exact .error h (hm.trans hm')

/-- An error came out of a computation: it ended the computation, or is noted behind it. -/
def Reveals (e : Error) : EStateM.Result Error ParseState α → Prop
  | .ok _ t => e ∈ t.errors
  | .error e' t => e' = e ∨ e ∈ t.errors

/-- An error that is noted stays noted. -/
theorem ComesTo.reveals {s : ParseState} {R : α → Prop} {r : EStateM.Result Error ParseState α}
    {e : Error} (h : ComesTo l s R r) (he : e ∈ s.errors) : Reveals e r := by
  cases h with
  | ok _ hm _ _ => exact hm.noted e he
  | error _ hm => exact .inr (hm.noted e he)

/-- Two computations of one shape ended on a level, unless the first one was refused somewhere for
a limit that the second one does not have. -/
def EndsLevel (settings settings' : ParseSettings) (l : Nat) (s : ParseState) (Q : α → β → Prop)
    (r : EStateM.Result Error ParseState α) (r' : EStateM.Result Error ParseState β) : Prop :=
  LevelEnds l s Q r r' ∨
    settings.maxDepth < settings'.maxDepth ∧ Reveals (.tooDeep "parser" settings.maxDepth) r

theorem EndsLevel.trans {settings settings' : ParseSettings} {s t : ParseState}
    {r : EStateM.Result Error ParseState α} {r' : EStateM.Result Error ParseState β}
    (hm : s.Moved t) (h : EndsLevel settings settings' l t Q r r') :
    EndsLevel settings settings' l s Q r r' :=
  h.imp_left (.trans hm)

/-- From states that are level, computations that are akin come to related results or to the same
error, and to states that are level, unless the first one meets its limit of nesting. -/
theorem Akin.endsLevel {settings settings' : ParseSettings} {loud : Prop} {n : Nat} {P : Known}
    {x : Parse α} {y : Parse β} (h : Akin settings settings' loud n l P Q x y)
    (hle : settings.maxDepth ≤ settings'.maxDepth) {s s' : ParseState} (hs : s.Level s')
    (hn : s.left ≤ n) (hP : P s.current s.nextKind) :
    EndsLevel settings settings' l s Q (EStateM.run x s) (EStateM.run y s') := by
  induction h generalizing s s' with
  | pure h => exact .inl (.ok hs (.refl s) hn h)
  | throw e _ => exact .inl (.error hs (.refl s))
  | refused h => exact .inr ⟨h, .inl rfl⟩
  | weaken _ hn' hl hP' hQ ih =>
    have h := ih hs (hn.trans hn') (hP' _ _ hP)
    refine h.imp_left fun h => ?_
    generalize EStateM.run _ s = r at h ⊢
    generalize EStateM.run _ s' = r' at h ⊢
    cases h with
    | ok h hm hl' hq => exact .ok h hm (hl'.trans hl) (hQ _ _ hq)
    | error h hm => exact .error h hm
  | bind hx hf ihx ihf =>
    have h := ihx hs hn hP
    have hends := hx.ends hs.terminated hn hP
    rw [EStateM.run_bind, EStateM.run_bind]
    generalize EStateM.run _ s = r at h hends ⊢
    generalize EStateM.run _ s' = r' at h ⊢
    rcases h with h | ⟨hlt, hreveals⟩
    · cases h with
      | ok h hm hl hq => exact (ihf _ _ hq h hl trivial).trans hm
      | error h hm => exact .inl (.error h hm)
    · -- What comes behind keeps the error.
      refine .inr ⟨hlt, ?_⟩
      cases hends with
      | ok ht _ hl hq =>
        obtain ⟨b, hq⟩ := hq
        exact ((hf _ b hq).ends ht hl trivial).reveals hreveals
      | error _ _ => exact hreveals
  | get _ ih => exact ih s s' hs hn hP hs (Nat.le_refl _) ⟨rfl, rfl⟩
  | @advance _ _ n l P Q f g hP' _ ih =>
    have hne := hP' _ _ hP
    have hleft := ParseState.left_advance hs.terminated hne
    have h := ih s.current s.nextKind hP (by omega) (hs.advance hne) (by omega)
      (ParseState.kind_current_advance hs.terminated hne)
    show EndsLevel settings settings' l s Q (EStateM.run (f s.current) s.advance)
      (EStateM.run (g s'.current) s'.advance)
    rw [hs.current]
    exact h.trans (ParseState.moved_advance hs.terminated hne)
  | make h =>
    refine .inl (.ok ⟨hs.current, hs.rest, hs.depth, hs.nesting, hs.errors, hs.sights,
      hs.terminated, hs.terminated'⟩ (.inl ⟨rfl, rfl⟩) hn (h s.nextId s'.nextId))
  | @nested _ _ n l P Q x y _ ih =>
    have hdeeper : ParseState.Level { s with depth := s.depth + 1 }
        { s' with depth := s'.depth + 1 } :=
      ⟨hs.current, hs.rest, congrArg (· + 1) hs.depth, hs.nesting, hs.errors, hs.sights,
        hs.terminated, hs.terminated'⟩
    have h := ih hdeeper hn hP
    simp only [EStateM.run, Parse.nested, hs.depth] at h ⊢
    by_cases hdepth : settings.maxDepth ≤ s.depth
    -- Where the first production is refused so is the second, unless its limit is another one.
    · rw [if_pos hdepth]
      rcases Nat.lt_or_eq_of_le hle with hlt | heq
      · exact .inr ⟨hlt, .inl rfl⟩
      · rw [← heq, if_pos hdepth]
        exact .inl (.error hs (.refl s))
    · rw [if_neg hdepth, if_neg (by omega)]
      generalize x _ = r at h ⊢
      generalize y _ = r' at h ⊢
      rcases h with h | ⟨hlt, hreveals⟩
      · cases h with
        | ok h hm hl hq =>
          exact .inl (.ok ⟨h.current, h.rest, congrArg (· - 1) h.depth, h.nesting, h.errors,
            h.sights, h.terminated, h.terminated'⟩ hm hl hq)
        | error h hm =>
          exact .inl (.error ⟨h.current, h.rest, congrArg (· - 1) h.depth, h.nesting, h.errors,
            h.sights, h.terminated, h.terminated'⟩ hm)
      · cases r <;> exact .inr ⟨hlt, hreveals⟩
  | @inRule _ _ n l P Q x y _ ih =>
    have hinner : ParseState.Level { s with nesting := s.nesting + 1 }
        { s' with nesting := s'.nesting + 1 } :=
      ⟨hs.current, hs.rest, hs.depth, congrArg (· + 1) hs.nesting, hs.errors, hs.sights,
        hs.terminated, hs.terminated'⟩
    have h := ih hinner hn hP
    simp only [EStateM.run, Parse.inRule, hs.nesting] at h ⊢
    generalize x _ = r at h ⊢
    generalize y _ = r' at h ⊢
    rcases h with h | ⟨hlt, hreveals⟩
    · cases h with
      | ok h hm hl hq =>
        exact .inl (.ok ⟨h.current, h.rest, h.depth, congrArg (· - 1) h.nesting, h.errors,
          h.sights, h.terminated, h.terminated'⟩ hm hl hq)
      | error h hm =>
        exact .inl (.error ⟨h.current, h.rest, h.depth, congrArg (· - 1) h.nesting, h.errors,
          h.sights, h.terminated, h.terminated'⟩ hm)
    · cases r <;> exact .inr ⟨hlt, hreveals⟩
  | attempt _ hf hg hx hok hstill hmoved ihx ihok ihstill ihmoved =>
    have h := ihx hs hn hP
    have hends := hx.ends hs.terminated hn hP
    generalize hr : EStateM.run _ s = r at h hends
    generalize hr' : EStateM.run _ s' = r' at h
    rw [EStateM.run_bind, EStateM.run_bind]
    rcases h with h | ⟨hlt, hreveals⟩
    · cases h with
      | ok h hm hl hq =>
        rw [run_attempt_ok hr, run_attempt_ok hr']
        exact (ihok _ _ hq h hl trivial).trans hm
      | @error t t' e h hm =>
        rw [run_attempt_error hr, run_attempt_error hr']
        dsimp only
        rw [hf, hg, EStateM.run_bind, EStateM.run_bind, run_report, run_report]
        have hnoted : ParseState.Level { t with errors := t.errors.push e }
            { t' with errors := t'.errors.push e } :=
          ⟨h.current, h.rest, h.depth, h.nesting, congrArg (Array.push · e) h.errors, h.sights,
            h.terminated, h.terminated'⟩
        have hm' : s.Moved { t with errors := t.errors.push e } := hm
        rcases known_of_moved hm hn hP with ⟨hleft, hknown⟩ | hleft
        · exact (ihstill e hnoted hleft hknown).trans hm'
        · exact (ihmoved e hnoted hleft trivial).trans hm'
    · -- The error that is noted may be the one that ended the computation.
      refine .inr ⟨hlt, ?_⟩
      cases hends with
      | ok ht _ hl hq =>
        obtain ⟨b, hq⟩ := hq
        rw [run_attempt_ok hr]
        exact ((hok _ b hq).ends ht hl trivial).reveals hreveals
      | @error t e ht hm =>
        rw [run_attempt_error hr]
        dsimp only
        rw [hf, EStateM.run_bind, run_report]
        have hnoted : .tooDeep "parser" settings.maxDepth ∈ t.errors.push e :=
          Array.mem_push.2 (hreveals.symm.imp_right Eq.symm)
        rcases known_of_moved hm.moved hn hP with ⟨hleft, hknown⟩ | hleft
        · exact ((hstill e).ends (s := { t with errors := t.errors.push e }) ht hleft
            hknown).reveals hnoted
        · exact ((hmoved e).ends (s := { t with errors := t.errors.push e }) ht hleft
            trivial).reveals hnoted

end Level

/-! ## Derived rules -/

section Rules

variable {settings settings' : ParseSettings} {loud : Prop} {α β : Type} {n l : Nat} {P : Known}
  {Q : α → β → Prop}

/-- Fewer tokens may be left than are allowed for. -/
theorem Akin.loosen {l' : Nat} {x : Parse α} {y : Parse β}
    (h : Akin settings settings' loud n l' P Q x y) (hl : l' ≤ l) :
    Akin settings settings' loud n l P Q x y :=
  h.weaken (Nat.le_refl n) hl (fun _ _ h => h) fun _ _ h => h

theorem Akin.shorten {n' : Nat} {x : Parse α} {y : Parse β}
    (h : Akin settings settings' loud n' l P Q x y) (hn : n ≤ n') :
    Akin settings settings' loud n l P Q x y :=
  h.weaken hn (Nat.le_refl l) (fun _ _ h => h) fun _ _ h => h

/-- Errors may be noted where none is. -/
theorem Akin.louder {x : Parse α} {y : Parse β}
    (h : Akin settings settings' False n l P Q x y) : Akin settings settings' loud n l P Q x y := by
  induction h with
  | pure h => exact .pure h
  | throw e h => exact .throw e h
  | refused h => exact .refused h
  | weaken _ hn hl hP hQ ih => exact ih.weaken hn hl hP hQ
  | bind _ _ ihx ihf => exact ihx.bind ihf
  | get _ ih => exact .get ih
  | advance hP _ ih => exact .advance hP ih
  | make h => exact .make h
  | nested _ ih => exact ih.nested
  | inRule _ ih => exact ih.inRule
  | attempt hloud => exact hloud.elim

/-- What holds wherever a parse is. -/
theorem Akin.anywhere {x : Parse α} {y : Parse β}
    (h : Akin settings settings' loud n l .nothing Q x y) :
    Akin settings settings' loud n l P Q x y :=
  h.weaken (Nat.le_refl n) (Nat.le_refl l) (fun _ _ _ => trivial) fun _ _ h => h

/-- The current token is the same on both sides. Other tokens are left if it is not the end. -/
theorem Akin.current {f : Token → Parse α} {g : Token → Parse β}
    (h : ∀ t k, (t.kind ≠ .eof → t.kind.IsProper ∧ 0 < n) → P t k →
      Akin settings settings' loud n l (.here t k) Q (f t) (g t)) :
    Akin settings settings' loud n l P Q (current >>= f) (current >>= g) := by
  show Akin settings settings' loud n l P Q (MonadState.get >>= fun s => f s.current)
    (MonadState.get >>= fun s => g s.current)
  refine .get fun s s' hs hn hP => ?_
  rw [hs.current]
  refine (h _ _ (fun hne => ?_) hP).shorten hn
  have hleft := ParseState.left_advance hs.terminated hne
  exact ⟨hs.terminated.isProper hne, by omega⟩

/-- There is fuel for all tokens that are left on both sides. -/
theorem Akin.remaining {f : ParseState → Parse α} {g : ParseState → Parse β}
    (h : ∀ (s s' : ParseState) (m : Nat), m ≤ n → m < s.remaining → m < s'.remaining →
      Akin settings settings' loud m l P Q (f s) (g s')) :
    Akin settings settings' loud n l P Q (MonadState.get >>= f) (MonadState.get >>= g) := by
  refine .get fun s s' hs hn hP => ?_
  have hremaining := hs.left_eq ▸ s'.left_lt_remaining
  refine (h s s' s.left hn s.left_lt_remaining hremaining).weaken (Nat.le_refl _) (Nat.le_refl l)
    (fun t k hhere => ?_) fun _ _ h => h
  obtain ⟨rfl, rfl⟩ := hhere
  exact hP

theorem Akin.failHere {what : String} :
    Akin settings settings' loud n l P Q (failHere what : Parse α) (failHere what : Parse β) :=
  .current fun _ _ _ _ => .throw _ fun _ _ hhere => hhere.1 ▸ ⟨rfl, rfl, rfl⟩

theorem Akin.checkHeight {height height' : Nat} (h : height = height') :
    Akin settings settings' loud n n P (fun _ _ => True) (checkHeight height)
      (checkHeight height') := by
  subst h
  refine .get fun s s' hs hn _ => ?_
  -- As many rules enclose the tree on both sides.
  rw [hs.nesting]
  split
  · exact .throw _ fun _ _ _ => trivial
  · exact (Akin.pure trivial).loosen hn

end Rules

end Parse

end Rulebook
