import Rulebook.Proofs.Node.Nested
import Rulebook.Proofs.Program.Places

/-!
# Where a parse stands

A parse stands between the last token that it took and the current one. A production leads from one
stand to a later one, whether it fails or not, and what it yields is described by both.

## Main definitions

* `Parse.Stand`: where a parse stands, and the next identity
* `Parse.Stand.upTo`: what was taken from one stand to another
* `Parse.Leads`: from where a computation leads to where, and what holds of the result there

## Main results

* `Parse.advance_leads`: the token that was current is taken
* `Parse.make_leads`: a new node gets the next identity
* `Parse.Leads.bind`: stands are passed one after the other
* `Program.exists_at_ofTokens`: a parse begins at a stand
-/

namespace Rulebook

variable {source : String}

/-! ## Tokens in order -/

section Tokens

/-- Each token ends before the next one begins. -/
theorem Cursor.pairwise_stop_scanAll (golf : Bool) (c : Cursor) :
    (c.scanAll golf).Pairwise (·.span.stop ≤ ·.span.start) := by
  fun_induction scanAll golf c with
  | case1 c _ => exact List.pairwise_singleton _ _
  | case2 c _ ih => exact List.pairwise_cons.2 ⟨fun t ht => offset_le_start_of_mem ht, ih⟩

/-- A token of a source. Only the end is empty. -/
structure Token.IsOf (source : String) (t : Token) : Prop where
  proper : t.span.Proper source
  line : t.line ≠ 0
  eof : t.kind = .eof → t.span.stop = t.span.start

theorem isOf_of_mem_tokenize {scan : ScanSettings} {t : Token}
    (h : t ∈ (tokenize scan source).1) : t.IsOf source := by
  obtain ⟨hstands, heof⟩ := (tokenize_places scan source).1 t h
  refine ⟨⟨hstands.start_le_stop, hstands.start, hstands.stop⟩, ?_, fun hk => by rw [heof hk]⟩
  rw [hstands.line]
  exact (Nat.lt_add_right _ Nat.one_pos).ne'

end Tokens

namespace Parse

/-! ## Stands -/

section Stands

/-- Where a parse stands: the span of the last token that was taken, the span of the current one
behind it, and the next identity. -/
structure Stand (source : String) where
  behind : Span
  ahead : Span
  next : Nat
  proper_behind : behind.Proper source
  proper_ahead : ahead.Proper source
  le : behind.stop ≤ ahead.start

namespace Stand

/-- From one stand a parse came to another one. -/
structure Before (p q : Stand source) : Prop where
  behind : p.behind.stop ≤ q.behind.stop
  start : p.ahead.start ≤ q.ahead.start
  stop : p.ahead.stop ≤ q.ahead.stop
  next : p.next ≤ q.next

/-- What was taken from one stand to another. -/
def upTo (p q : Stand source) : Span :=
  ⟨p.ahead.start, q.behind.stop⟩

/-- The next identity is issued. -/
def issue (p : Stand source) : Stand source :=
  { p with next := p.next + 1 }

variable {p q r p' q' : Stand source}

theorem Before.refl (p : Stand source) : p.Before p :=
  ⟨Nat.le_refl _, Nat.le_refl _, Nat.le_refl _, Nat.le_refl _⟩

theorem Before.trans (h : p.Before q) (h' : q.Before r) : p.Before r :=
  ⟨h.behind.trans h'.behind, h.start.trans h'.start, h.stop.trans h'.stop, h.next.trans h'.next⟩

theorem before_issue (p : Stand source) : p.Before p.issue :=
  ⟨Nat.le_refl _, Nat.le_refl _, Nat.le_refl _, Nat.le_succ _⟩

theorem upTo_within (hp : p'.Before p) (hq : q.Before q') : (p.upTo q).Within (p'.upTo q') :=
  ⟨hp.start, hq.behind⟩

/-- What was taken stands in front of what is taken later. -/
theorem Before.le (h : q.Before r) : q.behind.stop ≤ r.ahead.start :=
  q.le.trans h.start

/-- What was taken between two tokens is inside their union. -/
theorem upTo_within_merge (p q : Stand source) : (p.upTo q).Within (p.ahead.merge q.ahead) :=
  .between (Nat.le_refl _) (q.le.trans q.proper_ahead.le)

/-- A token between two others is inside their union. -/
theorem Before.within_merge (h : p.Before q) (h' : q.Before r) :
    q.ahead.Within (p.ahead.merge r.ahead) :=
  .between h.start h'.stop

end Stand

/-- The token that was current at one stand has been taken at another. -/
structure Took (p : Stand source) (t : Token) (q : Stand source) : Prop where
  span : t.span = p.ahead
  line : t.line ≠ 0
  stop : p.ahead.stop ≤ q.behind.stop

theorem Took.within {p q r : Stand source} {t : Token} (h : Took p t q) (hq : q.Before r) :
    p.ahead.Within (p.upTo r) :=
  ⟨Nat.le_refl _, h.stop.trans hq.behind⟩

/-- From one token up to another one that was taken. -/
theorem Took.merge_within {p q r u : Stand source} {t : Token} (h : Took q t r) (hq : p.Before q)
    (hr : r.Before u) : (p.ahead.merge q.ahead).Within (p.upTo u) := by
  have hstop : q.ahead.stop ≤ u.behind.stop := h.stop.trans hr.behind
  exact .merge ⟨Nat.le_refl _, hq.stop.trans hstop⟩ ⟨hq.start, hstop⟩

end Stands

end Parse

/-- A state of a parse of a source is at a stand. -/
structure ParseState.At (s : ParseState) (p : Parse.Stand source) : Prop where
  behind : s.previous.span = p.behind
  ahead : s.current.span = p.ahead
  next : s.nextId.number = p.next
  terminated : Terminated (s.current :: s.rest)
  tokens : ∀ t ∈ s.supply, t.IsOf source
  ordered : s.supply.Pairwise (·.span.stop ≤ ·.span.start)

/-- Only tokens and identities count. -/
theorem ParseState.At.congr {s t : ParseState} {p : Parse.Stand source} (h : s.At p)
    (hprevious : t.previous = s.previous) (hcurrent : t.current = s.current)
    (hrest : t.rest = s.rest) (hnext : t.nextId = s.nextId) : t.At p := by
  have hsupply : t.supply = s.supply := by rw [supply, supply, hcurrent, hrest]
  constructor
  · rw [hprevious, h.behind]
  · rw [hcurrent, h.ahead]
  · rw [hnext, h.next]
  · rw [hcurrent, hrest]
    exact h.terminated
  · rw [hsupply]
    exact h.tokens
  · rw [hsupply]
    exact h.ordered

namespace Parse

/-! ## Computations -/

section Computations

variable {α β : Type} {p q r : Stand source} {P : α → Stand source → Prop}
  {Q : β → Stand source → Prop}

/-- A computation ended at a later stand, and if it yielded something, with a property there. -/
inductive Arrives (p : Stand source) (P : α → Stand source → Prop) :
    EStateM.Result Error ParseState α → Prop
  | ok {q : Stand source} {t : ParseState} {a : α} (ht : t.At q) (hpq : p.Before q) (ha : P a q) :
    Arrives p P (.ok a t)
  | error {q : Stand source} {t : ParseState} {e : Error} (ht : t.At q) (hpq : p.Before q) :
    Arrives p P (.error e t)

/-- From a stand, a computation leads to a later one, where what it yields has a property. -/
def Leads (p : Stand source) (x : Parse α) (P : α → Stand source → Prop) : Prop :=
  ∀ s : ParseState, s.At p → Arrives p P (EStateM.run x s)

theorem Arrives.of_before {x : EStateM.Result Error ParseState α} (hx : Arrives q P x)
    (hpq : p.Before q) : Arrives p P x := by
  cases hx with
  | ok ht h ha => exact .ok ht (hpq.trans h) ha
  | error ht h => exact .error ht (hpq.trans h)

theorem Leads.pure {a : α} (h : P a p) : Leads p (pure a) P :=
  fun _ hs => .ok hs (.refl p) h

theorem Leads.bind {x : Parse α} {f : α → Parse β} (hx : Leads p x P)
    (hf : ∀ a q, p.Before q → P a q → Leads q (f a) Q) : Leads p (x >>= f) Q := by
  intro s hs
  have h := hx s hs
  rw [EStateM.run_bind]
  generalize EStateM.run x s = result at h
  cases h with
  | ok ht hpq ha => exact (hf _ _ hpq ha _ ht).of_before hpq
  | error ht hpq => exact .error ht hpq

theorem Leads.mono {P' : α → Stand source → Prop} {x : Parse α} (hx : Leads p x P)
    (h : ∀ a q, p.Before q → P a q → P' a q) : Leads p x P' := by
  intro s hs
  have hr := hx s hs
  generalize EStateM.run x s = result at hr
  cases hr with
  | ok ht hpq ha => exact .ok ht hpq (h _ _ hpq ha)
  | error ht hpq => exact .error ht hpq

theorem Leads.ite {c : Prop} [Decidable c] {x y : Parse α} (hx : Leads p x P)
    (hy : Leads p y P) : Leads p (if c then x else y) P := by
  split
  · exact hx
  · exact hy

theorem Leads.throw (e : Error) : Leads p (throw e) P :=
  fun _ hs => .error hs (.refl p)

/-- Computations that depend on the state that they begin with. -/
theorem Leads.get {x : ParseState → Parse α} (h : ∀ s : ParseState, s.At p → Leads p (x s) P) :
    Leads p (MonadState.get >>= x) P :=
  fun s hs => h s hs s hs

theorem current_leads {x : Token → Parse α}
    (h : ∀ t : Token, t.span = p.ahead → t.line ≠ 0 → Leads p (x t) P) :
    Leads p (current >>= x) P :=
  .get fun s hs => h s.current hs.ahead (hs.tokens _ List.mem_cons_self).line

theorem advance_leads : Leads p advance (Took p) := by
  intro s hs
  have hcurrent := hs.tokens _ List.mem_cons_self
  have hrun : EStateM.run advance s = .ok s.current s.advance := rfl
  rw [hrun]
  by_cases heof : s.current.kind = .eof
  · -- The end stays current, and is empty.
    have hrest : s.rest = [] := hs.terminated.eq_nil heof
    have hadvance : s.advance = { s with previous := s.current, rest := [] } := by
      rw [ParseState.advance, hrest]
      rfl
    have hle : p.ahead.stop ≤ p.ahead.start := hs.ahead ▸ (hcurrent.eof heof).le
    refine .ok (q := ⟨p.ahead, p.ahead, p.next, p.proper_ahead, p.proper_ahead, hle⟩) ?_
      ⟨p.le.trans p.proper_ahead.le, Nat.le_refl _, Nat.le_refl _, Nat.le_refl _⟩
      ⟨hs.ahead, hcurrent.line, Nat.le_refl _⟩
    rw [hadvance]
    refine ⟨hs.ahead, hs.ahead, hs.next, .last heof, ?_, List.pairwise_singleton _ _⟩
    exact List.forall_mem_singleton.2 hcurrent
  · obtain ⟨u, rest, -, hadvance, hterminated, -⟩ :=
      ParseState.exists_advance hs.terminated heof
    have htokens := hs.tokens
    have hordered := hs.ordered
    rw [ParseState.supply_advance hs.terminated heof] at htokens hordered
    rw [hadvance] at htokens hordered ⊢
    obtain ⟨-, htokens⟩ := List.forall_mem_cons.1 htokens
    obtain ⟨hbefore, hordered⟩ := List.pairwise_cons.1 hordered
    have hu : u.IsOf source := htokens u List.mem_cons_self
    have hle : p.ahead.stop ≤ u.span.start := hs.ahead ▸ hbefore u List.mem_cons_self
    refine .ok (q := ⟨p.ahead, u.span, p.next, p.proper_ahead, hu.proper, hle⟩)
      ⟨hs.ahead, rfl, hs.next, hterminated, htokens, hordered⟩ ?_
      ⟨hs.ahead, hcurrent.line, Nat.le_refl _⟩
    exact ⟨p.le.trans p.proper_ahead.le, p.proper_ahead.le.trans hle, hle.trans hu.proper.le,
      Nat.le_refl _⟩

theorem isAt_leads {kind : TokenKind} : Leads p (isAt kind) fun _ q => q = p :=
  .get fun _ _ => .pure rfl

theorem accept_leads {kind : TokenKind} : Leads p (accept kind) fun _ _ => True :=
  isAt_leads.bind fun _ _ _ _ =>
    .ite (advance_leads.bind fun _ _ _ _ => .pure trivial) (.pure trivial)

theorem failHere_leads {message : String} : Leads p (failHere message) P :=
  current_leads fun _ _ _ => .throw _

theorem failExpecting_leads {what : String} : Leads p (failExpecting what) P :=
  current_leads fun _ _ _ => failHere_leads

theorem expect_leads {kind : TokenKind} {what : String} : Leads p (expect kind what) (Took p) := by
  refine isAt_leads.bind fun _ q _ hq => ?_
  subst hq
  exact .ite advance_leads failExpecting_leads

theorem expectName_leads {what : String} : Leads p (expectName what) fun _ _ => True := by
  refine current_leads fun t _ _ => ?_
  split
  · exact advance_leads.bind fun _ _ _ _ => .pure trivial
  · exact failExpecting_leads

theorem checkHeight_leads {height : Nat} : Leads p (checkHeight height) fun _ _ => True :=
  .get fun _ _ => .ite (.throw _) (.pure trivial)

/-- A new node, with the next identity. -/
theorem make_leads {node : Fresh Node} {kind : Kind Node} {children : List Node} {span : Span}
    {line : Nat} (hnode : ∀ id, node id = (.linked id kind children, ⟨id.number + 1⟩)) :
    Leads p (make node span line) fun n q => q = p.issue ∧
      n = (Node.linked ⟨p.next⟩ kind children).withSpan span line := by
  intro s hs
  have hrun : EStateM.run (make node span line) s =
      .ok ((node s.nextId).1.withSpan span line) { s with nextId := (node s.nextId).2 } := rfl
  rw [hrun, hnode]
  refine .ok (q := p.issue) ?_ p.before_issue ⟨rfl, by rw [← hs.next]⟩
  exact ⟨hs.behind, hs.ahead, congrArg (· + 1) hs.next, hs.terminated, hs.tokens, hs.ordered⟩

theorem nested_leads {settings : ParseSettings} {x : Parse α} (hx : Leads p x P) :
    Leads p (nested settings x) P := by
  intro s hs
  have h := hx { s with depth := s.depth + 1 } (hs.congr rfl rfl rfl rfl)
  simp only [EStateM.run, nested] at h ⊢
  split
  · exact .error hs (.refl p)
  · generalize x _ = result at h
    cases h with
    | ok ht hpq ha => exact .ok (ht.congr rfl rfl rfl rfl) hpq ha
    | error ht hpq => exact .error (ht.congr rfl rfl rfl rfl) hpq

theorem inRule_leads {x : Parse α} (hx : Leads p x P) : Leads p (inRule x) P := by
  intro s hs
  have h := hx { s with nesting := s.nesting + 1 } (hs.congr rfl rfl rfl rfl)
  simp only [EStateM.run, inRule] at h ⊢
  generalize x _ = result at h
  cases h with
  | ok ht hpq ha => exact .ok (ht.congr rfl rfl rfl rfl) hpq ha
  | error ht hpq => exact .error (ht.congr rfl rfl rfl rfl) hpq

theorem attempt_leads {x : Parse α} (hx : Leads p x P) :
    Leads p (attempt x) fun result q => ∀ a, result = .ok a → P a q := by
  intro s hs
  have h := hx s hs
  simp only [EStateM.run, attempt] at h ⊢
  generalize x s = result at h
  cases h with
  | ok ht hpq ha => exact .ok ht hpq (by rintro _ ⟨⟩; exact ha)
  | error ht hpq => exact .ok ht hpq (by rintro _ ⟨⟩)

theorem report_leads {e : Error} : Leads p (report e) fun _ _ => True :=
  fun _ hs => .ok (hs.congr rfl rfl rfl rfl) (.refl p) trivial

end Computations

end Parse

/-- A parse begins at a stand. -/
theorem Program.exists_at_ofTokens (scan : ScanSettings) (source : String) (next : NodeId) :
    ∃ p : Parse.Stand source, p.next = next.number ∧
      (ParseState.ofTokens (tokenize scan source).1 next).At p := by
  obtain ⟨t, rest, hnext, hterminated, hsignificant⟩ :=
    (terminated_tokenize scan source).exists_next
  have htokens : ∀ u ∈ t :: significant rest, u.IsOf source := fun u hu =>
    isOf_of_mem_tokenize (List.mem_of_mem_filter (hsignificant ▸ hu))
  have hordered : (t :: significant rest).Pairwise (·.span.stop ≤ ·.span.start) := by
    rw [← hsignificant, significant, tokenize_eq]
    exact ((Cursor.pairwise_stop_scanAll _ _).filter _).filter _
  rw [ParseState.ofTokens_eq hnext]
  exact ⟨⟨{}, t.span, next.number, Span.proper_zero source, (htokens t List.mem_cons_self).proper,
    Nat.zero_le _⟩, rfl, rfl, rfl, rfl, hterminated, htokens, hordered⟩

end Rulebook
