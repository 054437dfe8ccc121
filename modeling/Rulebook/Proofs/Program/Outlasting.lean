import Rulebook.Proofs.Program.Agreement

/-!
# Productions without limits

Limits on depth only cut a parse short. A computation outlasts another one if it does the same,
from wherever in a source and at whatever depth it is run, unless the other one hits a limit. What
is said of the token in front of which a computation ends is carried along.

## Main definitions

* `Parse.Outlasts`: a computation does the same as another one that may hit a limit
* `Parse.outlasting`: the same, as a congruence

## Main results

* `Parse.Outlasts.nested`, `Parse.Outlasts.checkHeight`: the limits may be left out
* `Parse.primary_outlasts`: expressions without operators behind them, given their operands
-/

namespace Rulebook

namespace Parse

variable {α β : Type} {n l : Nat} {K : Token → Prop} {P : α → Token → Prop} {Q : β → Token → Prop}

/-! ## The judgement -/

/-- Two computations came to results that are related, the second one at a given depth, or both to
the same error, or the first one hit a limit. A result is come to in front of tokens of a source, of
which at most `l` are left. -/
inductive Endures (depth l : Nat) (R : α → β → Token → Prop) :
    EStateM.Result Error ParseState α → EStateM.Result Error ParseState β → Prop
  | ok {t : ParseState} {a : α} {b : β} (ht : Terminated (t.current :: t.rest)) (hl : t.left ≤ l)
      (hr : R a b t.current) : Endures depth l R (.ok a t) (.ok b { t with depth })
  | error {t : ParseState} {e : Error} :
      Endures depth l R (.error e t) (.error e { t with depth })
  | limit {t : ParseState} {activity : String} {limit : Nat}
      {r : EStateM.Result Error ParseState β} :
      Endures depth l R (.error (.tooDeep activity limit) t) r

/-- With at most `n` significant tokens left, behind a token of some sort, the second computation
does the same as the first one, at whatever depth, unless the first one hits a limit. -/
def Outlasts (n : Nat) (K : Token → Prop) (x y : Parse α) (P : α → Token → Prop) : Prop :=
  ∀ (s : ParseState) (depth : Nat), Terminated (s.current :: s.rest) → s.left ≤ n →
    K s.current → Endures depth s.left (fun a b t => b = a ∧ P a t) (EStateM.run x s)
      (EStateM.run y { s with depth })

/-- Any token. -/
abbrev anyToken : Token → Prop := fun _ => True

/-- Any result in front of any token. -/
abbrev anyResult : α → Token → Prop := fun _ _ => True

section Rules

theorem Endures.mono {γ δ : Type} {depth l' : Nat} {R R' : γ → δ → Token → Prop}
    {r : EStateM.Result Error ParseState γ} {r' : EStateM.Result Error ParseState δ}
    (h : Endures depth l R r r') (hl : l ≤ l') (hR : ∀ a b t, R a b t → R' a b t) :
    Endures depth l' R' r r' := by
  cases h with
  | ok ht hle hr => exact .ok ht (hle.trans hl) (hR _ _ _ hr)
  | error => exact .error
  | limit => exact .limit

theorem Outlasts.pure {a : α} (h : ∀ t, K t → P a t) : Outlasts n K (pure a) (pure a) P :=
  fun _ _ hs _ hK => .ok hs (Nat.le_refl _) ⟨rfl, h _ hK⟩

theorem Outlasts.throw (e : Error) : Outlasts n K (throw e) (throw e) P :=
  fun _ _ _ _ _ => .error

theorem Outlasts.weaken {n' : Nat} {K' : Token → Prop} {P' : α → Token → Prop} {x y : Parse α}
    (h : Outlasts n' K' x y P') (hn : n ≤ n') (hK : ∀ t, K t → K' t)
    (hP : ∀ a t, P' a t → P a t) : Outlasts n K x y P := by
  intro s depth hs hleft hKs
  exact (h s depth hs (hleft.trans hn) (hK _ hKs)).mono (Nat.le_refl _)
    fun _ _ _ hr => ⟨hr.1, hP _ _ hr.2⟩

theorem Outlasts.shorten {n' : Nat} {x y : Parse α} (h : Outlasts n' K x y P) (hn : n ≤ n') :
    Outlasts n K x y P :=
  h.weaken hn (fun _ h => h) fun _ _ h => h

/-- What holds wherever a parse is. -/
theorem Outlasts.anywhere {x y : Parse α} (h : Outlasts n anyToken x y P) : Outlasts n K x y P :=
  h.weaken (Nat.le_refl n) (fun _ _ => trivial) fun _ _ h => h

theorem Outlasts.any {x y : Parse α} (h : Outlasts n K x y P) : Outlasts n K x y anyResult :=
  h.weaken (Nat.le_refl n) (fun _ h => h) fun _ _ _ => trivial

/-- What the second computation does counts only from such states. -/
theorem Outlasts.congr {x y y' : Parse α} (h : Outlasts n K x y' P)
    (heq : ∀ s : ParseState, K s.current → EStateM.run y s = EStateM.run y' s) :
    Outlasts n K x y P := by
  intro s depth hs hleft hK
  rw [heq { s with depth } hK]
  exact h s depth hs hleft hK

theorem Outlasts.bind {x y : Parse α} {f g : α → Parse β} (hx : Outlasts n K x y P)
    (hf : ∀ a, Outlasts n (P a) (f a) (g a) Q) : Outlasts n K (x >>= f) (y >>= g) Q := by
  intro s depth hs hleft hK
  have h := hx s depth hs hleft hK
  rw [EStateM.run_bind, EStateM.run_bind]
  generalize EStateM.run x s = r, EStateM.run y _ = r' at h
  cases h with
  | ok ht hle hr =>
    obtain ⟨rfl, ha⟩ := hr
    exact (hf _ _ depth ht (hle.trans hleft) ha).mono hle fun _ _ _ h => h
  | error => exact .error
  | limit => exact .limit

theorem Outlasts.ite {c : Prop} [Decidable c] {x x' y y' : Parse α} (h : Outlasts n K x y P)
    (h' : Outlasts n K x' y' P) : Outlasts n K (if c then x else x') (if c then y else y') P := by
  split
  · exact h
  · exact h'

/-- Computations that depend on the state that they begin with, though not on its depth. -/
theorem Outlasts.get {f g : ParseState → Parse α}
    (h : ∀ (s : ParseState) (depth : Nat), s.left ≤ n → K s.current →
      Outlasts s.left (· = s.current) (f s) (g { s with depth }) P) :
    Outlasts n K (MonadState.get >>= f) (MonadState.get >>= g) P :=
  fun s depth hs hleft hK => h s depth hleft hK s depth hs (Nat.le_refl _) rfl

theorem Outlasts.current {f g : Token → Parse α}
    (h : ∀ t, K t → Outlasts n (· = t) (f t) (g t) P) :
    Outlasts n K (current >>= f) (current >>= g) P :=
  .get fun s _ hn hK => (h s.current hK).shorten hn

/-- Only the first computation looks at the token. -/
theorem Outlasts.look {f : Token → Parse α} {y : Parse α}
    (h : ∀ t, K t → Outlasts n (· = t) (f t) y P) : Outlasts n K (Parse.current >>= f) y P :=
  fun s depth hs hleft hK => h s.current hK s depth hs hleft rfl

/-- There is fuel for all tokens that are left. -/
theorem Outlasts.fuel {f : Nat → Parse α} {y : Parse α}
    (h : ∀ m fuel, m ≤ n → m < fuel → Outlasts m K (f fuel) y P) :
    Outlasts n K (MonadState.get >>= fun s => f s.remaining) y P :=
  fun s depth hs hleft hK =>
    h s.left s.remaining hleft s.left_lt_remaining s depth hs (Nat.le_refl _) hK

/-- There is fuel in the second computation. -/
theorem Outlasts.fuelBehind {x : Parse α} {g : Nat → Parse α}
    (h : ∀ m fuel, m ≤ n → m < fuel → Outlasts m K x (g fuel) P) :
    Outlasts n K x (MonadState.get >>= fun s => g s.remaining) P :=
  fun s depth hs hleft hK =>
    h s.left s.remaining hleft s.left_lt_remaining s depth hs (Nat.le_refl _) hK

/-- The depth of a parse does not matter for its tokens. -/
theorem advance_withDepth (s : ParseState) (depth : Nat) :
    { s with depth }.advance = { s.advance with depth } := by
  simp only [ParseState.advance]
  split <;> rfl

/-- Taking a token, or staying at the end. -/
theorem Outlasts.advance : Outlasts n K advance advance anyResult := by
  intro s depth hs hleft hK
  show Endures depth s.left _ (.ok s.current s.advance) (.ok s.current { s with depth }.advance)
  rw [advance_withDepth s depth]
  by_cases heof : s.current.kind = .eof
  · have hnil : s.rest = [] := hs.eq_nil heof
    have hadvance : s.advance = { s with previous := s.current } :=
      ParseState.advance_none (by rw [hnil, nextSignificant?])
    rw [hadvance]
    -- The end is not left, so the same token stays in front.
    exact .ok hs (Nat.le_refl _) ⟨rfl, trivial⟩
  · have hle := ParseState.left_advance hs heof
    exact .ok ((ParseState.Level.refl hs).advance heof).terminated (by omega) ⟨rfl, trivial⟩

/-- Taking a token other than the end. -/
theorem Outlasts.take {f g : Token → Parse α} (hK : ∀ t, K t → t.kind ≠ .eof)
    (h : ∀ t, K t → 0 < n → Outlasts (n - 1) anyToken (f t) (g t) P) :
    Outlasts n K (Parse.advance >>= f) (Parse.advance >>= g) P := by
  intro s depth hs hleft hKs
  have hne := hK _ hKs
  have hle := ParseState.left_advance hs hne
  have hadvanced := ((ParseState.Level.refl hs).advance hne).terminated
  show Endures depth s.left _ (EStateM.run (f s.current) s.advance)
    (EStateM.run (g s.current) { s with depth }.advance)
  rw [advance_withDepth s depth]
  exact (h s.current hKs (by omega) s.advance depth hadvanced (by omega) trivial).mono (by omega)
    fun _ _ _ h => h

theorem Outlasts.isAt (kind : TokenKind) : Outlasts n K (isAt kind) (isAt kind) anyResult := by
  show Outlasts n K (Parse.current >>= fun t => Pure.pure (t.kind == kind))
    (Parse.current >>= fun t => Pure.pure (t.kind == kind)) anyResult
  exact .current fun _ _ => .pure fun _ _ => trivial

theorem Outlasts.failHere (message : String) :
    Outlasts n K (failHere message) (failHere message) P :=
  .current fun _ _ => .throw _

theorem Outlasts.failExpecting (what : String) :
    Outlasts n K (failExpecting what) (failExpecting what) P :=
  .current fun _ _ => .failHere _

theorem Outlasts.expect (kind : TokenKind) (what : String) :
    Outlasts n K (expect kind what) (expect kind what) anyResult :=
  (Outlasts.isAt kind).bind fun _ => .ite .advance (.failExpecting what)

theorem Outlasts.make (node : Fresh Node) (span : Span) (line : Nat) :
    Outlasts n K (make node span line) (make node span line) fun _ t => K t :=
  fun _ _ hs _ hK => .ok hs (Nat.le_refl _) ⟨rfl, hK⟩

theorem run_checkHeight (height : Nat) (s : ParseState) :
    EStateM.run (checkHeight height) s =
      if heightLimit s.nesting < height then .error (.tooDeep "parser" maxTreeDepth) s
      else .ok () s := by
  show EStateM.run (if heightLimit s.nesting < height then
    throw (Error.tooDeep "parser" maxTreeDepth) else pure ()) s = _
  split <;> rfl

/-- Without the check of a height the same is done, unless it fails. -/
theorem Outlasts.checkHeight {height : Nat} {f : Unit → Parse α} {y : Parse α}
    (h : Outlasts n K (f ()) y P) : Outlasts n K (checkHeight height >>= f) y P := by
  intro s depth hs hleft hK
  rw [EStateM.run_bind, run_checkHeight]
  by_cases hlimit : heightLimit s.nesting < height
  · rw [if_pos hlimit]
    exact .limit
  · rw [if_neg hlimit]
    exact h s depth hs hleft hK

/-- Where nothing counts how deep a production is, the same is done, unless it is too deep. -/
theorem Outlasts.nested {settings : ParseSettings} {x y : Parse α} (h : Outlasts n K x y P) :
    Outlasts n K (nested settings x) y P := by
  intro s depth hs hleft hK
  -- The first production begins a level deeper, which only its depth tells.
  have h' := h { s with depth := s.depth + 1 } depth hs hleft hK
  simp only [EStateM.run, Parse.nested] at h' ⊢
  split
  · exact .limit
  · generalize x _ = r, y _ = r' at h'
    cases h' with
    | ok ht hle ha => exact .ok ht hle ha
    | error => exact .error
    | limit => exact .limit

end Rules

/-! ## The congruence -/

section Congruence

/-- Tokens and nodes are the same, of whatever kinds. -/
abbrev sameTrees (settings : ParseSettings) : Comparison settings settings :=
  (Trees.any fun _ => True).comparison (.refl _ settings)

/-- Computations the second of which does the same as the first one, unless that hits a limit. -/
def outlasting (settings : ParseSettings) :
    Congruence (sameTrees settings) (List Token) (List Token) where
  room _ := True
  room_mono _ _ := trivial
  Rel n front l Q x y := ∀ (s : ParseState) (depth : Nat), Terminated (s.current :: s.rest) →
    s.left ≤ n → front.Holds s { s with depth } →
      Endures depth l (fun a b _ => Q a b) (EStateM.run x s) (EStateM.run y { s with depth })
  pure h := fun _ _ hs hn _ => .ok hs hn h
  bind {_ _ _ _ _ _ _ _ _ _ x y _ _} hx hf := by
    intro s depth hs hn hfront
    have h := hx s depth hs hn hfront
    rw [EStateM.run_bind, EStateM.run_bind]
    generalize EStateM.run x s = r, EStateM.run y _ = r' at h
    cases h with
    | ok ht hl hr => exact hf _ _ hr _ depth ht hl trivial
    | error => exact .error
    | limit => exact .limit
  weaken h hl hQ := fun s depth hs hn hfront =>
    (h s depth hs hn hfront).mono hl fun _ _ _ => hQ _ _
  coarsen h := fun s depth hs hn _ => h s depth hs hn trivial
  current h := fun s depth hs hn _ => by
    refine h s.current s.current ?_ (fun ht => ?_) s depth hs hn ⟨rfl, rfl⟩
    · exact (em (s.current.kind = .eof)).symm.imp (fun hne => ⟨rfl, hne, trivial⟩) fun heof =>
        ⟨rfl, heof⟩
    · have hle := ParseState.left_advance hs ht.2.1
      omega
  look h := by
    rintro s depth hs hn ⟨rfl, rfl⟩
    exact h s depth hs hn ⟨rfl, rfl⟩
  take {_ _ _ l t t' _ f g} ht _ _ h := by
    rintro s depth hs hn ⟨rfl, rfl⟩
    have hne := ht.2.1
    have hle := ParseState.left_advance hs hne
    have hadvanced := ((ParseState.Level.refl hs).advance hne).terminated
    show Endures depth l _ (EStateM.run (f s.current) s.advance)
      (EStateM.run (g s.current) { s with depth }.advance)
    rw [advance_withDepth s depth]
    exact h (by omega) s.advance depth hadvanced (by omega) trivial
  ahead {α β n l t t' name Q f g} ht hname hfound hplain := by
    rintro s depth hs hn ⟨rfl, rfl⟩
    have hne := ht.2.1
    have hle := ParseState.left_advance hs hne
    have hadvanced := ((ParseState.Level.refl hs).advance hne).terminated
    show Endures depth l _ (EStateM.run (f s.nextKind) s.advance)
      (EStateM.run (g s.nextKind) { s with depth }.advance)
    rw [advance_withDepth s depth]
    cases hkind : s.nextKind.continues? with
    | none => exact hplain _ _ hkind hkind s.advance depth hadvanced (by omega) trivial
    | some kind =>
      obtain rfl := continues?_eq_some hkind
      -- What a look ahead found is current now.
      have heof : s.nextKind ≠ .eof := by
        intro h
        rw [h] at hkind
        cases hkind
      have hcurrent := ParseState.kind_current_advance hs hne heof
      exact hfound _ hkind s.advance.current s.advance.current
        ⟨rfl, by rwa [hcurrent], trivial⟩ hcurrent s.advance depth hadvanced (by omega) ⟨rfl, rfl⟩
  remaining h := fun s depth hs hn hfront =>
    h s.left s.remaining s.remaining hn s.left_lt_remaining s.left_lt_remaining s depth hs
      (Nat.le_refl _) hfront
  make h := fun _ _ hs hn _ => .ok hs hn (h _ _ fun _ => rfl)
  -- Where both check a height, the second one may be refused only if the first one is.
  checkHeight height := fun s depth hs hn _ => by
    rw [run_checkHeight, run_checkHeight]
    dsimp only
    split
    · exact .limit
    · exact .ok hs hn trivial
  fail ht h := by
    rintro s depth hs hn ⟨rfl, rfl⟩
    rw [h rfl]
    exact .error
  stuck ht hbreak _ := by
    rw [ht.1, ht.2] at hbreak
    cases hbreak

variable {settings : ParseSettings} {operand operand' : OperandParser}

/-- Expressions without operators behind them, given their operands, of which fewer tokens are
left. -/
theorem primary_outlasts
    (hop : 0 < n → ∀ strength context,
      Outlasts (n - 1) anyToken (operand strength context) (operand' strength context) anyResult)
    (hstuck : ∀ kind : TokenKind, kind.begins = false → ∀ strength context,
      Stuck kind (operand strength context)) (context : ReadContext) :
    Outlasts n K (primary settings operand context) (primary settings operand' context)
      anyResult := by
  intro s depth hs hn _
  -- Where an operand begins a token was taken, so fewer than `n` are left.
  have hoperands : (outlasting settings).Operands s.left operand operand' := by
    refine ⟨fun m hm strength context s' depth' hs' hn' _ => ?_, hstuck⟩
    exact (hop (by omega) strength context s' depth' hs' (by omega) trivial).mono hn'
      fun _ _ _ hr => ⟨hr.1, trivial⟩
  exact (primary_rel hoperands context s depth hs (Nat.le_refl _) trivial).mono (Nat.sub_le _ 1)
    fun _ _ _ hr => ⟨hr.1, trivial⟩

end Congruence

/-! ## Consequences -/

section Consequences

variable (settings : ParseSettings)

theorem toConsequence_outlasts (m : Node) :
    Outlasts n K (toConsequence settings m) (toConsequence settings m) fun _ t => K t := by
  rw [toConsequence]
  split
  · split
    · exact .make _ _ _
    · exact .make _ _ _
  · exact .make _ _ _
  · exact .pure fun _ h => h

theorem consequence_outlasts {settings : ParseSettings} {operand operand' : OperandParser}
    (hop : ∀ strength context,
      Outlasts n anyToken (operand strength context) (operand' strength context) anyResult) :
    Outlasts n K (consequence settings operand) (consequence settings operand') anyResult :=
  (hop 0 .consequence).anywhere.bind fun m => (toConsequence_outlasts settings m).any

end Consequences

end Parse

end Rulebook
