import Rulebook.Proofs.Program.Rows
import Rulebook.Proofs.Program.Supply
import Rulebook.Proofs.Token.Fused

/-!
# Parses that agree

Two parses of the same tokens come to the same, whatever hands out the tokens, and whether or not
single letters may stand for verdicts, if none is among the tokens. On the way, what is said of new
nodes is carried along, how deep trees may be, and how question marks and colons follow each other.

What is said of the tokens is not enough to go on with, since a production looks at nodes as well
that others have made. A name that becomes a verdict where a consequence is expected may have been
read long before.

## Main definitions

* `Trees`: what is said of expressions and items, and is kept where they are put together
* `TokenSource.Tracks`: a source hands out the tokens of a list
* `ParseState.Leads`: tokens were taken, and errors may have been noted
* `Parse.Agrees`: two computations come to the same, and to trees of which something is said

## Main results

* `Parse.agreement`: agreement is a congruence
* `Parse.root_agrees`: parses of the same tokens agree
-/

namespace Rulebook

/-! ## Trees -/

/-- What is said of trees whose texts and numbers come from tokens of some kinds. -/
structure Trees (kinds : TokenKind → Prop) where
  /-- What is said of expressions. -/
  expr : Node → Prop
  /-- What is said of rules and statements. -/
  item : Node → Prop
  expr_withSpan : ∀ {n span line}, expr n → expr (n.withSpan span line)
  item_withSpan : ∀ {n span line}, item n → item (n.withSpan span line)
  expr_formed : ∀ {id kind cs}, Node.Formed kinds (fun a b => b = a ∧ expr a) kind cs kind cs →
    expr (.linked id kind cs)
  item_expr : ∀ {n}, expr n → item n
  item_block : ∀ {id ns}, (∀ n ∈ ns, item n) → item (.linked id .block ns)
  item_rule : ∀ {id name body}, kinds (.identifier name) → item body →
    item (.linked id (.rule { name } (some body)) [])

/-- Nothing is said. -/
def Trees.any (kinds : TokenKind → Prop) : Trees kinds where
  expr _ := True
  item _ := True
  expr_withSpan := id
  item_withSpan := id
  expr_formed _ := trivial
  item_expr := id
  item_block _ := trivial
  item_rule _ _ := trivial

/-- Of nodes that are related to themselves only, the same ones are made. -/
theorem Node.Formed.eq {kinds : TokenKind → Prop} {N : Node → Prop} {kind kind' : Kind Node}
    {cs cs' : List Node} (h : Formed kinds (fun a b => b = a ∧ N a) kind cs kind' cs') :
    kind' = kind ∧ cs' = cs := by
  cases h with
  | assignment _ hvalue => exact ⟨rfl, by rw [hvalue.1]⟩
  | decision h hyes hno =>
    cases hno with
    | none => exact ⟨by rw [h.1, hyes.1], rfl⟩
    | some hno => exact ⟨by rw [h.1, hyes.1, hno.1], rfl⟩
  | logic _ h hright | comparison _ h hright | arithmetic _ h hright | chain _ h hright =>
    exact ⟨by rw [h.1, hright.1], rfl⟩
  | not h | neg h => exact ⟨by rw [h.1], rfl⟩
  | _ => exact ⟨rfl, rfl⟩

/-- No expression is a rule. -/
theorem Node.Formed.rule?_eq {kinds : TokenKind → Prop} {N : Node → Node → Prop}
    {kind kind' : Kind Node} {cs cs' : List Node} (h : Formed kinds N kind cs kind' cs') :
    kind.rule? = none := by
  cases h <;> rfl

/-- The operands of a new node are expressions that were read before. -/
theorem Node.Formed.of_mem {kinds : TokenKind → Prop} {N : Node → Prop} {kind kind' : Kind Node}
    {cs cs' : List Node} (h : Formed kinds (fun a b => b = a ∧ N a) kind cs kind' cs') :
    ∀ c ∈ kind.operands ++ cs, N c := by
  cases h with
  | assignment _ h => simpa [Kind.operands, Kind.slots] using h.2
  | decision h hyes hno =>
    cases hno with
    | none => simpa [Kind.operands, Kind.slots] using ⟨h.2, hyes.2⟩
    | some hno => simpa [Kind.operands, Kind.slots] using ⟨h.2, hyes.2, hno.2⟩
  | logic _ h hright | comparison _ h hright | arithmetic _ h hright | chain _ h hright =>
    simpa [Kind.operands, Kind.slots] using ⟨h.2, hright.2⟩
  | not h | neg h => simpa [Kind.operands, Kind.slots] using h.2
  | _ => simp [Kind.operands, Kind.slots]

/-! ## Sources that hand out the same -/

/-- A source hands out the tokens of a list, if it is related to them. -/
structure TokenSource.Tracks (τ : Type) [TokenSource τ] (R : List Token → τ → Prop) : Prop where
  fetch : ∀ {tokens rest t σ}, R tokens σ → nextSignificant? tokens = some (t, rest) →
    ∃ σ', fetch? σ = some (t, σ') ∧ R rest σ'
  peek : ∀ {tokens σ}, R tokens σ → (peekKind σ).1 = lookahead tokens ∧ R tokens (peekKind σ).2
  bound : ∀ {tokens σ}, R tokens σ → tokens.length ≤ bound σ

theorem TokenSource.tracks_list : Tracks (List Token) (fun tokens σ => σ = tokens) where
  fetch h hnext := ⟨_, h ▸ hnext, rfl⟩
  peek h := ⟨by rw [h]; rfl, h⟩
  bound h := Nat.le_of_eq (by rw [h]; rfl)

namespace ParseState

variable {τ : Type} {R : List Token → τ → Prop}

/-- Two states are the same but for their sources, which hand out the same tokens. -/
structure Mirrors (R : List Token → τ → Prop) (s : ParseState) (s' : ParseState τ) : Prop where
  current : s'.current = s.current
  previous : s'.previous = s.previous
  rest : R s.rest s'.rest
  errors : s'.errors = s.errors
  depth : s'.depth = s.depth
  nesting : s'.nesting = s.nesting
  nextId : s'.nextId = s.nextId

/-- The tokens that are left come from a source, and are of some kinds. -/
structure Plain (K : TokenKind → Prop) (s : ParseState) : Prop where
  terminated : Terminated (s.current :: s.rest)
  supplied : s.Supplied K

/-- Tokens were taken, or none, and errors may have been noted. -/
structure Leads (K : TokenKind → Prop) (s t : ParseState) : Prop where
  plain : t.Plain K
  moved : s.Moved t
  depth : t.depth = s.depth
  nesting : t.nesting = s.nesting
  errors : s.errors.size ≤ t.errors.size

/-- If no error was noted between two states, no question mark that was taken was directly in front
of a colon. -/
def Clears (s t : ParseState) : Prop :=
  t.errors.size ≤ s.errors.size → Parted t.supply → Parted s.supply

variable {K : TokenKind → Prop} {s t u : ParseState} {s' : ParseState τ}

theorem Plain.advance (h : s.Plain K) (hne : s.current.kind ≠ .eof) : s.advance.Plain K :=
  ⟨((Level.refl h.terminated).advance hne).terminated, h.supplied.advance⟩

theorem Plain.congr (h : s.Plain K) (hcurrent : t.current = s.current) (hrest : t.rest = s.rest) :
    t.Plain K := by
  refine ⟨?_, ?_, ?_⟩
  · rw [hcurrent, hrest]
    exact h.terminated
  · rw [hcurrent]
    exact h.supplied.current
  · rw [hrest]
    exact h.supplied.rest

theorem Leads.refl (h : s.Plain K) : s.Leads K s :=
  ⟨h, .refl s, rfl, rfl, Nat.le_refl _⟩

theorem Leads.trans (h : s.Leads K t) (h' : t.Leads K u) : s.Leads K u :=
  ⟨h'.plain, h.moved.trans h'.moved, h'.depth.trans h.depth, h'.nesting.trans h.nesting,
    h.errors.trans h'.errors⟩

theorem Clears.trans (h : s.Clears t) (hle : s.errors.size ≤ t.errors.size) (h' : t.Clears u)
    (hle' : t.errors.size ≤ u.errors.size) : s.Clears u :=
  fun hnone hparted => h (hle'.trans hnone) (h' (hnone.trans hle) hparted)

theorem leads_advance (h : s.Plain K) (hne : s.current.kind ≠ .eof) : s.Leads K s.advance := by
  obtain ⟨u, rest, -, hadvance, -⟩ := exists_advance h.terminated hne
  refine ⟨h.advance hne, moved_advance h.terminated hne, ?_, ?_, ?_⟩
  all_goals rw [hadvance]

/-- A token is taken that is no question mark, or behind which no colon stands. -/
theorem clears_advance (h : Terminated (s.current :: s.rest)) (hne : s.current.kind ≠ .eof)
    (hcolon : s.current.kind = .question → s.advance.current.kind ≠ .colon) :
    s.Clears s.advance := by
  intro _ hparted
  rw [supply_advance h hne]
  exact List.isChain_cons_cons.2 ⟨hcolon, hparted⟩

theorem Mirrors.mapDepth (h : s.Mirrors R s') (f : Nat → Nat) :
    Mirrors R { s with depth := f s.depth } { s' with depth := f s'.depth } :=
  ⟨h.current, h.previous, h.rest, h.errors, congrArg f h.depth, h.nesting, h.nextId⟩

theorem Mirrors.mapNesting (h : s.Mirrors R s') (f : Nat → Nat) :
    Mirrors R { s with nesting := f s.nesting } { s' with nesting := f s'.nesting } :=
  ⟨h.current, h.previous, h.rest, h.errors, h.depth, congrArg f h.nesting, h.nextId⟩

/-- A list mirrors itself only. -/
theorem Mirrors.eq {s t : ParseState} (h : s.Mirrors (fun tokens σ => σ = tokens) t) : t = s := by
  obtain ⟨hcurrent, hprevious, hrest, herrors, hdepth, hnesting, hnextId⟩ := h
  cases s
  cases t
  simp_all

theorem Mirrors.refl (s : ParseState) : s.Mirrors (fun tokens σ => σ = tokens) s :=
  ⟨rfl, rfl, rfl, rfl, rfl, rfl, rfl⟩

/-- Parses of the same tokens begin in the same state. -/
theorem mirrors_ofTokens [TokenSource τ] (hR : TokenSource.Tracks τ R) {tokens : List Token}
    {σ : τ} (h : R tokens σ) (ht : Terminated tokens) (next : NodeId) :
    (ParseState.ofTokens tokens next).Mirrors R (.ofTokens σ next) := by
  obtain ⟨t, rest, hnext, -, -⟩ := ht.exists_next
  obtain ⟨σ', hfetch, hrest⟩ := hR.fetch h hnext
  rw [ofTokens_eq hnext, ofTokens, hfetch]
  exact ⟨rfl, rfl, hrest, rfl, rfl, rfl, rfl⟩

/-- The same token is taken on both sides. -/
theorem Mirrors.advance [TokenSource τ] (hR : TokenSource.Tracks τ R) (h : s.Mirrors R s')
    (ht : Terminated (s.current :: s.rest)) (hne : s.current.kind ≠ .eof) :
    s.advance.Mirrors R s'.advance := by
  obtain ⟨u, rest, hnext, hadvance, -⟩ := exists_advance ht hne
  obtain ⟨rest', hfetch, hrest⟩ := hR.fetch h.rest hnext
  rw [hadvance, ParseState.advance, hfetch]
  exact ⟨rfl, h.current, hrest, h.errors, h.depth, h.nesting, h.nextId⟩

end ParseState

/-! ## What is compared -/

section Comparison

variable {K : TokenKind → Prop} {settings settings' : ParseSettings}

/-- The limits of two parses are the same, and letters are read alike that are among the tokens or
that names are made of. -/
structure Trees.SameMode (T : Trees K) (settings settings' : ParseSettings) : Prop where
  maxDepth : settings'.maxDepth = settings.maxDepth
  read : ∀ {kind}, K kind → ∀ context,
    kind.inContext settings'.golf context = kind.inContext settings.golf context
  letter : ∀ {n name}, T.expr n → n.kind = .identifier name →
    Parse.golfVerdict? settings' name = Parse.golfVerdict? settings name

theorem Trees.SameMode.refl (T : Trees K) (settings : ParseSettings) :
    T.SameMode settings settings :=
  ⟨rfl, fun _ _ => rfl, fun _ _ => rfl⟩

/-- Tokens and nodes are the same. -/
def Trees.comparison (T : Trees K) (h : T.SameMode settings settings') :
    Parse.Comparison settings settings' where
  token t t' := t' = t ∧ t.kind ≠ .eof ∧ K t.kind
  kinds := K
  ends t t' := t' = t ∧ t.kind = .eof
  node a b := b = a ∧ T.expr a
  exact := True
  token_ne ht := ht.2.1
  token_kind ht := congrArg Token.kind ht.1
  token_kinds ht := ht.2.2
  token_read ht context := by
    rw [ht.1]
    exact h.read ht.2.2 context
  token_eq _ _ _ ht := ht.1
  ends_kind ht := ht.2
  ends_stops ht := by
    rw [ht.1, ht.2]
    exact .inl rfl
  ends_eq _ _ _ ht := ht.1
  node_eq _ _ _ hn := hn.1
  node_depth hn := by rw [hn.1]
  node_children hn := by rw [hn.1]
  node_identifier hn name := by rw [hn.1]
  node_string hn s := by rw [hn.1]
  node_letter hn _ hname := h.letter hn.2 hname
  node_withSpan hn _ _ _ _ hspan hline := by
    obtain ⟨rfl, hn⟩ := hn
    obtain ⟨rfl, rfl⟩ : _ ∧ _ := ⟨hspan trivial, hline trivial⟩
    exact ⟨rfl, T.expr_withSpan hn⟩
  node_formed hformed _ _ _ _ _ _ hid hspan hline := by
    obtain ⟨rfl, rfl⟩ := hformed.eq
    obtain ⟨rfl, rfl, rfl⟩ : _ ∧ _ ∧ _ := ⟨hid trivial, hspan trivial, hline trivial⟩
    exact ⟨rfl, T.expr_withSpan (T.expr_formed hformed)⟩

end Comparison

namespace Parse

open ParseState (Mirrors Plain Leads Clears)

/-! ## The judgement -/

section Judgement

variable {τ : Type} {α β : Type} {K : TokenKind → Prop} {R : List Token → τ → Prop}
  {careful : Prop} {k n l : Nat} {front : Front} {Q : α → β → Prop}

/-- Two computations ended in the same way, behind the states that they began in. If care is taken,
no question mark was taken in front of a colon without an error. -/
inductive AgreedEnds (K : TokenKind → Prop) (R : List Token → τ → Prop) (careful : Prop) (l : Nat)
    (s : ParseState) (Q : α → β → Prop) :
    EStateM.Result Error ParseState α → EStateM.Result Error (ParseState τ) β → Prop
  | ok {t : ParseState} {t' : ParseState τ} {a : α} {b : β} (hm : t.Mirrors R t')
    (h : s.Leads K t) (hl : t.left ≤ l) (hcare : careful → s.Clears t) (hq : Q a b) :
    AgreedEnds K R careful l s Q (.ok a t) (.ok b t')
  | error {t : ParseState} {t' : ParseState τ} {e : Error} (hm : t.Mirrors R t')
    (h : s.Leads K t) : AgreedEnds K R careful l s Q (.error e t) (.error e t')

/-- Within `k` rules and in front of tokens of some kinds, two computations end in the same way. At
most `n` tokens are left before them, at most `l` behind them. -/
def Agrees (K : TokenKind → Prop) (R : List Token → τ → Prop) (careful : Prop) (k n : Nat)
    (front : Front) (l : Nat) (Q : α → β → Prop) (x : Parse α) (y : ParseFrom τ β) : Prop :=
  ∀ (s : ParseState) (s' : ParseState τ), s.Mirrors R s' → s.Plain K → s.nesting = k →
    s.left ≤ n → front.Holds s s' →
      AgreedEnds K R careful l s Q (EStateM.run x s) (EStateM.run y s')

theorem AgreedEnds.trans {s t : ParseState} {r : EStateM.Result Error ParseState α}
    {r' : EStateM.Result Error (ParseState τ) β} (h : s.Leads K t) (hcare : careful → s.Clears t)
    (hr : AgreedEnds K R careful l t Q r r') : AgreedEnds K R careful l s Q r r' := by
  cases hr with
  | ok hm h' hl hcare' hq =>
    exact .ok hm (h.trans h') hl
      (fun hcareful => (hcare hcareful).trans h.errors (hcare' hcareful) h'.errors) hq
  | error hm h' => exact .error hm (h.trans h')

theorem Agrees.bind {γ δ : Type} {m : Nat} {P : γ → δ → Prop} {x : Parse γ} {y : ParseFrom τ δ}
    {f : γ → Parse α} {g : δ → ParseFrom τ β} (hx : Agrees K R careful k n front m P x y)
    (hf : ∀ a b, P a b → Agrees K R careful k m .anywhere l Q (f a) (g b)) :
    Agrees K R careful k n front l Q (x >>= f) (y >>= g) := by
  intro s s' hs hplain hk hn hfront
  have h := hx s s' hs hplain hk hn hfront
  rw [EStateM.run_bind, EStateM.run_bind]
  generalize EStateM.run x s = r, EStateM.run y s' = r' at h ⊢
  cases h with
  | ok hm h hl hcare hq =>
    exact (hf _ _ hq _ _ hm h.plain (h.nesting.trans hk) hl trivial).trans h hcare
  | error hm h => exact .error hm h

theorem Agrees.weaken {l' : Nat} {Q' : α → β → Prop} {x : Parse α} {y : ParseFrom τ β}
    (h : Agrees K R careful k n front l' Q' x y) (hl : l' ≤ l) (hQ : ∀ a b, Q' a b → Q a b) :
    Agrees K R careful k n front l Q x y := by
  intro s s' hs hplain hk hn hfront
  have h := h s s' hs hplain hk hn hfront
  generalize EStateM.run x s = r, EStateM.run y s' = r' at h ⊢
  cases h with
  | ok hm h hl' hcare hq => exact .ok hm h (hl'.trans hl) hcare (hQ _ _ hq)
  | error hm h => exact .error hm h

theorem Agrees.pure {a : α} {b : β} (h : Q a b) :
    Agrees K R careful k n front n Q (pure a) (pure b) :=
  fun _ _ hs hplain _ hn _ => .ok hs (.refl hplain) hn (fun _ _ h => h) h

/-- Fewer tokens may be left. -/
theorem Agrees.shorten {m : Nat} {x : Parse α} {y : ParseFrom τ β}
    (h : Agrees K R careful k n front l Q x y) (hm : m ≤ n) :
    Agrees K R careful k m front l Q x y :=
  fun s s' hs hplain hk hn hfront => h s s' hs hplain hk (hn.trans hm) hfront

theorem Agrees.throw {e : Error} :
    Agrees K R careful k n front l Q (throw e : Parse α) (throw e : ParseFrom τ β) :=
  fun _ _ hs hplain _ _ _ => .error hs (.refl hplain)

/-- Computations that depend on the states that they begin with. -/
theorem Agrees.get {f : ParseState → Parse α} {g : ParseState τ → ParseFrom τ β}
    (h : ∀ (s : ParseState) (s' : ParseState τ), s.Mirrors R s' → s.Plain K → s.nesting = k →
      s.left ≤ n → front.Holds s s' → Agrees K R careful k s.left (.at s.current s'.current) l Q
        (f s) (g s')) :
    Agrees K R careful k n front l Q (MonadState.get >>= f) (MonadState.get >>= g) :=
  fun s s' hs hplain hk hn hfront =>
    h s s' hs hplain hk hn hfront s s' hs hplain hk (Nat.le_refl _) ⟨rfl, rfl⟩

/-- What is done behind a token, other than the end, that was taken. Behind a question mark there is
no colon if it comes to a result. -/
theorem AgreedEnds.advance {s : ParseState} (hs : s.Plain K) (hne : s.current.kind ≠ .eof)
    {x : Parse α} {r' : EStateM.Result Error (ParseState τ) β}
    (hcolon : careful → s.current.kind = .question → Stuck .colon x)
    (h : AgreedEnds K R careful l s.advance Q (EStateM.run x s.advance) r') :
    AgreedEnds K R careful l s Q (EStateM.run x s.advance) r' := by
  have hadvanced := ParseState.leads_advance hs hne
  generalize hr : EStateM.run x s.advance = r at h ⊢
  cases h with
  | @ok t _ a _ hm h hl hcare hq =>
    -- Had a question mark been taken in front of a colon, there would be no result.
    refine .ok hm (hadvanced.trans h) hl (fun hcareful => ?_) hq
    refine ParseState.Clears.trans ?_ hadvanced.errors (hcare hcareful) h.errors
    refine ParseState.clears_advance hs.terminated hne fun hquestion hkind => ?_
    exact hcolon hcareful hquestion s.advance hkind a t hr
  | error hm h => exact .error hm (hadvanced.trans h)

theorem Agrees.checkHeight (height : Nat) :
    Agrees K R careful k n .anywhere n (fun _ _ => height ≤ heightLimit k) (checkHeight height)
      (checkHeight height) := by
  refine .get fun s s' hs _ hk hn _ => ?_
  rw [hs.nesting, hk]
  split
  · exact .throw
  · next h => exact Agrees.weaken (.pure (Nat.not_lt.1 h)) hn fun _ _ h => h

theorem Agrees.nested {settings settings' : ParseSettings}
    (hlimit : settings'.maxDepth = settings.maxDepth) {x : Parse α} {y : ParseFrom τ β}
    (h : Agrees K R careful k n front l Q x y) :
    Agrees K R careful k n front l Q (Parse.nested settings x) (Parse.nested settings' y) := by
  intro s s' hs hplain hk hn hfront
  have h := h _ _ (hs.mapDepth (· + 1)) (hplain.congr rfl rfl) hk hn
    (by cases front <;> exact hfront)
  simp only [EStateM.run, Parse.nested, hlimit, hs.depth] at h ⊢
  split
  · exact .error hs (.refl hplain)
  · generalize x _ = r, y _ = r' at h ⊢
    cases h with
    | ok hm h hl hcare hq =>
      exact .ok (hm.mapDepth (· - 1))
        ⟨h.plain.congr rfl rfl, h.moved, congrArg (· - 1) h.depth, h.nesting, h.errors⟩ hl hcare hq
    | error hm h =>
      exact .error (hm.mapDepth (· - 1))
        ⟨h.plain.congr rfl rfl, h.moved, congrArg (· - 1) h.depth, h.nesting, h.errors⟩

theorem Agrees.inRule {x : Parse α} {y : ParseFrom τ β}
    (h : Agrees K R careful (k + 1) n front l Q x y) :
    Agrees K R careful k n front l Q (Parse.inRule x) (Parse.inRule y) := by
  intro s s' hs hplain hk hn hfront
  have h := h _ _ (hs.mapNesting (· + 1)) (hplain.congr rfl rfl) (congrArg (· + 1) hk) hn
    (by cases front <;> exact hfront)
  simp only [EStateM.run, Parse.inRule, hs.nesting] at h ⊢
  generalize x _ = r, y _ = r' at h ⊢
  cases h with
  | ok hm h hl hcare hq =>
    exact .ok (hm.mapNesting (· - 1))
      ⟨h.plain.congr rfl rfl, h.moved, h.depth, congrArg (· - 1) h.nesting, h.errors⟩ hl hcare hq
  | error hm h =>
    exact .error (hm.mapNesting (· - 1))
      ⟨h.plain.congr rfl rfl, h.moved, h.depth, congrArg (· - 1) h.nesting, h.errors⟩

/-- Behind an error that was noted, no care is taken of question marks. -/
theorem AgreedEnds.noted {s t : ParseState} {r : EStateM.Result Error ParseState α}
    {r' : EStateM.Result Error (ParseState τ) β} (h : s.Leads K t)
    (hlt : s.errors.size < t.errors.size) (hr : AgreedEnds K R False l t Q r r') :
    AgreedEnds K R careful l s Q r r' := by
  cases hr with
  | ok hm h' hl _ hq =>
    exact .ok hm (h.trans h') hl
      (fun _ hnone => absurd (hlt.trans_le h'.errors) (Nat.not_lt.2 hnone)) hq
  | error hm h' => exact .error hm (h.trans h')

/-- An error is noted, of a computation that took no token, or took one at least. -/
theorem Agrees.attempt {γ δ : Type} {m : Nat} {P : γ → δ → Prop} {x : Parse γ} {y : ParseFrom τ δ}
    {f : Except Error γ → Parse α} {g : Except Error δ → ParseFrom τ β} {f' : Parse α}
    {g' : ParseFrom τ β} (hf : ∀ e, f (.error e) = report e >>= fun _ => f')
    (hg : ∀ e, g (.error e) = report e >>= fun _ => g')
    (hx : Agrees K R careful k n .anywhere m P x y)
    (hok : ∀ a b, P a b → Agrees K R careful k m .anywhere l Q (f (.ok a)) (g (.ok b)))
    (hstill : Agrees K R False k n front l Q f' g')
    (hmoved : Agrees K R False k (n - 1) .anywhere l Q f' g') :
    Agrees K R careful k n front l Q (Parse.attempt x >>= f) (Parse.attempt y >>= g) := by
  intro s s' hs hplain hk hn hfront
  have h := hx s s' hs hplain hk hn trivial
  rw [EStateM.run_bind, EStateM.run_bind]
  generalize hr : EStateM.run x s = r, hr' : EStateM.run y s' = r' at h
  cases h with
  | ok hm h hl hcare hq =>
    rw [run_attempt_ok hr, run_attempt_ok hr']
    exact (hok _ _ hq _ _ hm h.plain (h.nesting.trans hk) hl trivial).trans h hcare
  | @error t t' e hm h =>
    rw [run_attempt_error hr, run_attempt_error hr']
    dsimp only
    rw [hf, hg, EStateM.run_bind, EStateM.run_bind, run_report, run_report]
    have hnoted : Mirrors R { t with errors := t.errors.push e }
        { t' with errors := t'.errors.push e } :=
      ⟨hm.current, hm.previous, hm.rest, congrArg (Array.push · e) hm.errors, hm.depth, hm.nesting,
        hm.nextId⟩
    have hlt : s.errors.size < (t.errors.push e).size := by
      rw [Array.size_push]
      exact Nat.lt_succ_of_le h.errors
    have hleads : s.Leads K { t with errors := t.errors.push e } :=
      ⟨h.plain.congr rfl rfl, h.moved, h.depth, h.nesting, Nat.le_of_lt hlt⟩
    refine AgreedEnds.noted hleads hlt ?_
    -- Only a computation that took no token leaves the place that was known before it.
    rcases h.moved with ⟨hcurrent, hrest⟩ | ⟨hleft, -⟩
    · refine hstill _ _ hnoted hleads.plain (h.nesting.trans hk) ?_ ?_
      · rw [ParseState.left, hrest]
        exact hn
      · cases front with
        | anywhere => trivial
        | «at» u u' =>
          exact ⟨hcurrent.trans hfront.1, (hm.current.trans hcurrent).trans (hs.current.symm.trans
            hfront.2)⟩
    · exact hmoved _ _ hnoted hleads.plain (h.nesting.trans hk)
        (Nat.le_sub_one_of_lt (hleft.trans_le hn)) trivial

variable [TokenSource τ]

/-- A token other than the end is taken. -/
theorem Agrees.take (hR : TokenSource.Tracks τ R) {t t' : Token} (hne : t.kind ≠ .eof)
    {f : Token → Parse α} {g : Token → ParseFrom τ β}
    (hcolon : careful → t.kind = .question → Stuck .colon (f t))
    (h : 0 < n → Agrees K R careful k (n - 1) .anywhere l Q (f t) (g t')) :
    Agrees K R careful k n (.at t t') l Q (advance >>= f) (advance >>= g) := by
  rintro s s' hs hplain hk hn ⟨rfl, rfl⟩
  have hleft := ParseState.left_advance hplain.terminated hne
  have hadvanced := ParseState.leads_advance hplain hne
  have h := h (by omega) s.advance s'.advance (hs.advance hR hplain.terminated hne) hadvanced.plain
    (hadvanced.nesting.trans hk) (by omega) trivial
  exact AgreedEnds.advance hplain hne hcolon h

/-- A name is taken, behind which a look ahead found something. -/
theorem Agrees.ahead (hR : TokenSource.Tracks τ R) {t t' : Token} {name : String}
    (hname : t.kind = .identifier name) {f : TokenKind → Parse α} {g : TokenKind → ParseFrom τ β}
    (hfound : ∀ kind, kind.continues? = some kind → ∀ u, u.kind = kind → K kind →
      Agrees K R careful k (n - 1) (.at u u) l Q (f kind) (g kind))
    (hplain : ∀ kind kind', kind.continues? = none → kind'.continues? = none →
      Agrees K R careful k (n - 1) .anywhere l Q (f kind) (g kind')) :
    Agrees K R careful k n (.at t t') l Q (nextKind >>= fun kind => advance >>= fun _ => f kind)
      (nextKind >>= fun kind => advance >>= fun _ => g kind) := by
  rintro s s' hs hs' hk hn ⟨rfl, rfl⟩
  have hne : s.current.kind ≠ .eof := by simp [hname]
  -- A look ahead may change the other source, which has the same tokens to hand out as before.
  obtain ⟨hkind, hrest⟩ := hR.peek hs.rest
  have hpeeked : s.Mirrors R { s' with rest := (TokenSource.peekKind s'.rest).2 } :=
    ⟨hs.current, hs.previous, hrest, hs.errors, hs.depth, hs.nesting, hs.nextId⟩
  show AgreedEnds K R careful l s Q
    (EStateM.run (advance >>= fun _ => f s.nextKind) s)
    (EStateM.run (advance >>= fun _ => g (TokenSource.peekKind s'.rest).1)
      { s' with rest := (TokenSource.peekKind s'.rest).2 })
  have hnext : (TokenSource.peekKind s'.rest).1 = s.nextKind := hkind
  rw [hnext]
  cases hcontinues : s.nextKind.continues? with
  | none =>
    exact Agrees.take hR hne (fun _ h => by simp [hname] at h)
      (fun _ => hplain _ _ hcontinues hcontinues) s _ hpeeked hs' hk hn ⟨rfl, rfl⟩
  | some kind =>
    obtain rfl := continues?_eq_some hcontinues
    have heof : s.nextKind ≠ .eof := by
      intro h
      rw [h] at hcontinues
      cases hcontinues
    have hcurrent := ParseState.kind_current_advance hs'.terminated hne heof
    have hleft := ParseState.left_advance hs'.terminated hne
    have hmirrors := hpeeked.advance hR hs'.terminated hne
    have hadvanced := ParseState.leads_advance hs' hne
    refine AgreedEnds.advance hs' hne (fun _ h => by simp [hname] at h) ?_
    exact hfound _ hcontinues s.advance.current hcurrent
      (hcurrent ▸ hadvanced.plain.supplied.current) s.advance _ hmirrors hadvanced.plain
      (hadvanced.nesting.trans hk) (by omega) ⟨rfl, hmirrors.current⟩

end Judgement

/-! ## The congruence -/

section Congruence

variable {τ : Type} {K : TokenKind → Prop} {R : List Token → τ → Prop}
  {settings settings' : ParseSettings}

theorem met_current {T : Trees K} {hmode : T.SameMode settings settings'} {s : ParseState}
    {s' : ParseState τ} (hs : s.Mirrors R s') (hplain : s.Plain K) :
    (T.comparison hmode).Met s.current s'.current := by
  by_cases heof : s.current.kind = .eof
  · exact .inr ⟨hs.current, heof⟩
  · exact .inl ⟨hs.current, heof, hplain.supplied.current⟩

variable [TokenSource τ]

/-- Agreement is kept when computations are put together. -/
def agreement (T : Trees K) (hmode : T.SameMode settings settings')
    (hR : TokenSource.Tracks τ R) (careful : Prop) (k : Nat) :
    Congruence (T.comparison hmode) (List Token) τ where
  room height := height ≤ heightLimit k
  room_mono := Nat.le_trans
  Rel n front l Q x y := Agrees K R careful k n front l Q x y
  pure h := .pure h
  bind := .bind
  weaken := .weaken
  coarsen h s s' hs hplain hk hn _ := h s s' hs hplain hk hn trivial
  current h := .get fun s s' hs hplain hk hn _ => by
    refine Agrees.shorten (h _ _ (met_current hs hplain) fun ht => ?_) hn
    have hleft := ParseState.left_advance hplain.terminated ht.2.1
    omega
  look h := by
    refine .get fun s s' hs hplain hk hn hfront => ?_
    rw [hfront.1, hfront.2]
    exact h.shorten hn
  take ht _ hquestion h := .take hR ht.2.1 (fun _ => hquestion) h
  ahead ht hname hfound hplain := by
    refine .ahead hR hname (fun kind hkind u hu hK => ?_) hplain
    refine hfound kind hkind u u ⟨rfl, fun heof => ?_, hu ▸ hK⟩ hu
    rw [hu.symm.trans heof] at hkind
    cases hkind
  remaining h := fun s s' hs hplain hk hn hfront => by
    -- The rounds that the other side has are those of its own source, which may be more.
    have hbound := hR.bound hs.rest
    refine h s.left s.remaining s'.remaining hn s.left_lt_remaining ?_ s s' hs hplain hk
      (Nat.le_refl _) hfront
    exact s.left_lt_remaining.trans_le (Nat.succ_le_succ hbound)
  make h := fun s s' hs hplain _ hn _ =>
    .ok ⟨hs.current, hs.previous, hs.rest, hs.errors, hs.depth, hs.nesting,
        congrArg (fun id => (freshId id).2) hs.nextId⟩
      ⟨hplain.congr rfl rfl, .inl ⟨rfl, rfl⟩, rfl, rfl, Nat.le_refl _⟩ hn
      (fun _ _ hparted => hparted) (h _ _ fun _ => hs.nextId)
  checkHeight height := .checkHeight height
  fail ht h := by
    rintro s s' hs hplain - - ⟨rfl, rfl⟩
    rw [h (congrArg Token.kind hs.current)]
    show AgreedEnds K R careful _ s _
      (.error (.malformed _ s.current.span s.current.line s.current.column) s)
      (.error (.malformed _ s'.current.span s'.current.line s'.current.column) s')
    rw [hs.current]
    exact .error hs (.refl hplain)
  stuck ht hbreak _ := by
    rw [ht.1, ht.2] at hbreak
    cases hbreak

variable (T : Trees K) (hmode : T.SameMode settings settings') (hR : TokenSource.Tracks τ R)

theorem agreement_nests (careful : Prop) (k : Nat) :
    (agreement T hmode hR careful k).Nests Eq where
  below h := Nat.succ.inj h
  nested _ := Agrees.nested hmode.maxDepth
  neither _ := hmode.maxDepth ▸ Agrees.throw
  left h := nomatch h
  right h := nomatch h

/-- The same items are read. Tokens that are passed over behind an error may be any. -/
def itemAgreement : ItemCongruence (T.comparison hmode) (List Token) τ where
  within := agreement T hmode hR True
  passing := agreement T hmode hR False
  item a b := T.item a ∧ a = b
  token_start ht := by rw [ht.1]
  ends_eof ht := ht.1 ▸ ht.2
  item_node hn := ⟨T.item_expr hn.2, hn.1.symm⟩
  item_depth h := by rw [h.2]
  item_block hns _ _ _ _ _ _ hid hspan hline := by
    obtain ⟨rfl, rfl, rfl⟩ : _ ∧ _ ∧ _ := ⟨hid trivial, hspan trivial, hline trivial⟩
    obtain ⟨hns, heq⟩ := (List.forall₂_and_left _ _).1 hns
    rw [List.forall₂_eq_eq_eq] at heq
    exact ⟨T.item_withSpan (T.item_block hns), by rw [heq]⟩
  item_rule hname h _ _ _ _ _ _ hid hspan hline := by
    obtain ⟨rfl, rfl, rfl⟩ : _ ∧ _ ∧ _ := ⟨hid trivial, hspan trivial, hline trivial⟩
    exact ⟨T.item_withSpan (T.item_rule hname h.1), by rw [h.2]⟩
  takeBrace ht hbrace h :=
    .take hR ht.2.1 (fun _ hquestion => nomatch hbrace.symm.trans hquestion) h
  pass ht h := .take hR ht.2.1 (fun hcareful => hcareful.elim) h
  inRule h := .inRule h
  attempt := .attempt
  previous h := fun s s' hs => h s.previous s'.previous (fun _ => hs.previous) s s' hs

variable (careful : Prop) {k n : Nat} (levels : Nat)

include hmode hR

/-- The same statements are read from the same tokens, and find room below the enclosing rules. -/
theorem statement_agrees : Agrees K R careful k n .anywhere (n - 1)
    (fun a b => (b = a ∧ T.expr a) ∧ a.depth ≤ heightLimit k)
    (statement settings (expr settings levels)) (statement settings' (expr settings' levels)) :=
  statement_rel (C := agreement T hmode hR careful k)
    (fun _ strength context => expr_rel (agreement_nests T hmode hR careful k) rfl strength context)
    fun _ hkind strength context => stuck_expr hkind levels strength context

/-- The same rules and statements are read from the same tokens. -/
theorem item_agrees : Agrees K R True k n .anywhere (n - 1)
    (fun a b => a.depth ≤ heightLimit k ∧ T.item a ∧ a = b)
    (item settings levels) (item settings' levels) :=
  item_rel (I := itemAgreement T hmode hR) (fun k => agreement_nests T hmode hR True k) rfl

/-- The same rows of items are read from the same tokens. -/
theorem items_agrees (insideRule : Bool) (fuel fuel' : Nat) (hfuel : n < fuel)
    (hfuel' : n < fuel') :
    Agrees K R True k n .anywhere n
      (List.Forall₂ fun a b => a.depth ≤ heightLimit k ∧ T.item a ∧ a = b)
      (items (item settings levels) insideRule fuel [])
      (items (item settings' levels) insideRule fuel' []) :=
  items_rel (I := itemAgreement T hmode hR) (fun _ => item_agrees T hmode hR levels) fuel fuel'
    hfuel hfuel' .nil

/-- Parses of the same tokens come to the same tree, whose items find room below the root. -/
theorem root_agrees : Agrees K R True 0 n .anywhere n
    (fun a b => (T.item a ∧ a = b) ∧ ∀ c ∈ a.childNodes, c.depth ≤ heightLimit 0)
    (root settings) (root settings') :=
  root_rel (I := itemAgreement T hmode hR) (fun k => agreement_nests T hmode hR True k)
    hmode.maxDepth.symm

end Congruence

/-! ## Whole sources -/

section Stops

variable {settings : ParseSettings} {s : ParseState}

theorem plain_of_terminated (h : Terminated (s.current :: s.rest)) : s.Plain fun _ => True :=
  ⟨h, trivial, fun _ _ => trivial⟩

/-- A list of tokens is parsed beside itself. -/
theorem Agrees.self {α : Type} {K : TokenKind → Prop} {careful : Prop} {l : Nat}
    {Q : α → α → Prop} {x : Parse α}
    (h : Agrees K (fun tokens σ => σ = tokens) careful s.nesting s.left .anywhere l Q x x)
    (hs : s.Plain K) : AgreedEnds K (fun tokens σ => σ = tokens) careful l s Q (EStateM.run x s)
      (EStateM.run x s) :=
  h s s (.refl s) hs rfl (Nat.le_refl _) trivial

/-- An item that fails has taken tokens, or none. -/
theorem leads_of_run_item (h : Terminated (s.current :: s.rest)) {levels : Nat} {e : Error}
    {t : ParseState} (hrun : EStateM.run (item settings levels) s = .error e t) :
    s.Leads (fun _ => True) t := by
  have hends := Agrees.self (item_agrees (Trees.any fun _ => True) (.refl _ settings)
    TokenSource.tracks_list levels) (plain_of_terminated h)
  rw [hrun] at hends
  cases hends with
  | error _ hleads => exact hleads

/-- A row of items leaves the productions and rules that were begun in it. -/
theorem leads_of_run_items (h : Terminated (s.current :: s.rest)) {levels fuel : Nat}
    (hfuel : s.left < fuel) {insideRule : Bool} {ns : List Node} {t : ParseState}
    (hrun : EStateM.run (items (item settings levels) insideRule fuel []) s = .ok ns t) :
    s.Leads (fun _ => True) t := by
  have hends := Agrees.self (items_agrees (Trees.any fun _ => True) (.refl _ settings)
    TokenSource.tracks_list levels insideRule fuel fuel hfuel hfuel) (plain_of_terminated h)
  rw [hrun] at hends
  cases hends with
  | ok _ hleads _ _ _ => exact hleads

/-- A round of a row of items takes a token. -/
theorem turn_stops (settings : ParseSettings) (levels : Nat) (h : Terminated (s.current :: s.rest))
    (hne : s.current.kind ≠ .eof) {insideRule : Bool}
    (hbrace : s.current.kind = .rbrace → insideRule = false) :
    ∃ new t, EStateM.run (turn (item settings levels) insideRule s.current.span.start) s =
        .ok new t ∧ s.Leads (fun _ => True) t ∧ t.left < s.left := by
  have hmode := Trees.SameMode.refl (Trees.any fun _ => True) settings
  have hturn := turn_rel
    (I := itemAgreement (Trees.any fun _ => True) hmode TokenSource.tracks_list)
    (fun _ => item_agrees _ hmode TokenSource.tracks_list levels) (t := s.current)
    ⟨rfl, hne, trivial⟩ hbrace s s (.refl s) (plain_of_terminated h) rfl (Nat.le_refl _) ⟨rfl, rfl⟩
  obtain ⟨new, t, ht⟩ := turn_total (item settings levels) insideRule s.current.span.start s
  have hleft := ParseState.left_advance h hne
  rw [ht] at hturn
  cases hturn with
  | ok _ hleads hl _ _ => exact ⟨new, t, ht, hleads, by omega⟩

/-- A parse comes to a root in front of the end. -/
theorem root_stops (settings : ParseSettings) (h : Terminated (s.current :: s.rest)) :
    ∃ tree t, EStateM.run (root settings) s = .ok tree t ∧ t.current.kind = .eof ∧
      Terminated (t.current :: t.rest) := by
  have hturn (u : ParseState) (hu : Terminated (u.current :: u.rest)) (hne : u.current.kind ≠ .eof)
      (_ : u.current.kind = .rbrace → false = false) :
      ∃ new v, EStateM.run
          (turn (item settings settings.maxDepth) false u.current.span.start) u = .ok new v ∧
        Terminated (v.current :: v.rest) ∧ v.left < u.left ∧ True := by
    obtain ⟨new, v, hv, hleads, hlt⟩ := turn_stops settings settings.maxDepth hu hne fun _ => rfl
    exact ⟨new, v, hv, hleads.plain.terminated, hlt, trivial⟩
  obtain ⟨ns, t, hrun, ht, hend, -⟩ := exists_run_items (P := fun _ _ => True) (fun _ => trivial)
    (fun _ _ => trivial) hturn s.remaining h s.left_lt_remaining []
  exact ⟨_, _, run_root hrun, hend.resolve_right fun h => Bool.false_ne_true h.1, ht⟩

end Stops

end Parse

end Rulebook
