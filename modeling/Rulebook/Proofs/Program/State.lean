import Rulebook.Program.Item

/-!
# States of a parse

What taking a token does to the state of a parse of a list, which computations on the state of a
parse never fail, and how rows of items are read in rounds.

## Main definitions

* `ParseState.nextKind`: the kind of the token behind the current one, as far as a look ahead
  reaches
* `Parse.Total`: a computation never fails
* `Parse.turn`: one round of a row of items
* `Parse.passOver`: what is done behind an error that was noted

## Main results

* `ParseState.kind_advance`: a look ahead finds the token that comes next
* `Parse.root_total`: a parse comes to a root, however malformed the source is
-/

namespace Rulebook

namespace ParseState

/-- The kind of the token behind the current one, as far as the lookahead reaches. -/
def nextKind (s : ParseState) : TokenKind :=
  lookahead s.rest

theorem advance_some {s : ParseState} {t : Token} {rest : List Token}
    (h : nextSignificant? s.rest = some (t, rest)) :
    s.advance = { s with current := t, previous := s.current, rest } := by
  have hfetch : TokenSource.fetch? s.rest = some (t, rest) := h
  rw [advance, hfetch]

theorem advance_none {s : ParseState} (h : nextSignificant? s.rest = none) :
    s.advance = { s with previous := s.current } := by
  have hfetch : TokenSource.fetch? s.rest = none := h
  rw [advance, hfetch]

theorem length_of_nextSignificant? {tokens rest : List Token} {t : Token}
    (h : nextSignificant? tokens = some (t, rest)) : rest.length < tokens.length := by
  induction tokens with
  | nil => cases h
  | cons token tokens ih =>
    rw [nextSignificant?] at h
    split at h
    · cases h
      exact Nat.lt_succ_self _
    · exact Nat.lt_succ_of_lt (ih h)

/-- The token found by a look ahead is the next significant one. -/
theorem find?_take_of_nextSignificant? {tokens rest : List Token} {t : Token}
    (h : nextSignificant? tokens = some (t, rest)) (limit : Nat) :
    (tokens.take limit).find? (·.kind.isSignificant) = some t ∨
      (tokens.take limit).find? (·.kind.isSignificant) = none := by
  induction tokens generalizing limit with
  | nil => cases h
  | cons token tokens ih =>
    cases limit with
    | zero => exact .inr rfl
    | succ limit =>
      rw [nextSignificant?] at h
      rw [List.take_succ_cons, List.find?_cons]
      split at h
      · next hs =>
        cases h
        exact .inl (by rw [hs])
      · next hs =>
        rw [Bool.eq_false_iff.2 hs]
        exact ih h limit

/-- The token found by a look ahead is the next one. -/
theorem kind_advance {s : ParseState} {tokens rest : List Token} {t : Token}
    (htokens : s.rest = tokens) (hnext : nextSignificant? tokens = some (t, rest))
    (hkind : s.nextKind ≠ .eof) :
    s.advance.current.kind = s.nextKind := by
  subst htokens
  rw [ParseState.advance_some hnext]
  rw [ParseState.nextKind, Rulebook.lookahead] at hkind ⊢
  rcases find?_take_of_nextSignificant? hnext lookaheadLimit with hfind | hfind
  · rw [hfind]
  · rw [hfind] at hkind
    exact absurd rfl hkind

theorem ofTokens_eq {tokens rest : List Token} {t : Token}
    (h : nextSignificant? tokens = some (t, rest)) (nextId : NodeId) :
    ofTokens tokens nextId = { current := t, previous := emptyToken, rest, nextId } := by
  have hfetch : TokenSource.fetch? tokens = some (t, rest) := h
  rw [ofTokens, hfetch]

theorem start_ofTokens (tokens : List Token) (next : NodeId) :
    (ofTokens tokens next).depth = 0 ∧ (ofTokens tokens next).nesting = 0 ∧
      (ofTokens tokens next).errors.size = 0 := by
  rw [ofTokens]
  split
  · exact ⟨rfl, rfl, rfl⟩
  · exact ⟨rfl, rfl, rfl⟩

end ParseState

namespace Parse

variable {τ : Type} {α β : Type}

/-! ## Computations that never fail -/

section Total

/-- A computation never fails. -/
def Total (x : ParseFrom τ α) : Prop :=
  ∀ s, ∃ a t, EStateM.run x s = .ok a t

theorem Total.pure (a : α) : Total (pure a : ParseFrom τ α) :=
  fun s => ⟨a, s, rfl⟩

theorem Total.bind {x : ParseFrom τ α} {f : α → ParseFrom τ β} (hx : Total x)
    (hf : ∀ a, Total (f a)) : Total (x >>= f) := by
  intro s
  obtain ⟨a, t, h⟩ := hx s
  rw [EStateM.run_bind, h]
  exact hf a t

theorem Total.ite {c : Prop} [Decidable c] {x y : ParseFrom τ α} (hx : Total x) (hy : Total y) :
    Total (if c then x else y) := by
  split
  · exact hx
  · exact hy

theorem get_total : Total (MonadState.get : ParseFrom τ (ParseState τ)) :=
  fun s => ⟨s, s, rfl⟩

theorem current_total : Total (current : ParseFrom τ Token) :=
  get_total.bind fun _ => .pure _

variable [TokenSource τ]

theorem advance_total : Total (advance : ParseFrom τ Token) :=
  fun s => ⟨s.current, s.advance, rfl⟩

theorem accept_total (kind : TokenKind) : Total (accept kind : ParseFrom τ Bool) :=
  (get_total.bind fun _ => .pure _).bind fun _ =>
    .ite (advance_total.bind fun _ => .pure _) (.pure _)

omit [TokenSource τ] in
theorem make_total (node : Fresh Node) (span : Span) (line : Nat) :
    Total (make node span line : ParseFrom τ Node) :=
  fun _ => ⟨_, _, rfl⟩

omit [TokenSource τ] in
theorem attempt_total (x : ParseFrom τ α) : Total (attempt x) := by
  intro s
  simp only [EStateM.run, attempt]
  split
  · exact ⟨_, _, rfl⟩
  · exact ⟨_, _, rfl⟩

theorem synchronize_total (insideRule : Bool) (fuel : Nat) :
    Total (synchronize insideRule fuel : ParseFrom τ Unit) := by
  induction fuel with
  | zero => exact .pure _
  | succ fuel ih =>
    have step : Total (advance >>= fun _ => pure () : ParseFrom τ Unit) :=
      advance_total.bind fun _ => .pure _
    refine current_total.bind fun t => ?_
    split
    · exact .pure _
    · exact .pure _
    · exact .pure _
    · exact .pure _
    · exact step
    · exact step
    · exact .ite step (.pure _)
    · exact advance_total.bind fun _ => ih

theorem recover_total (e : Error) (mark : Nat) (insideRule : Bool) :
    Total (recover e mark insideRule : ParseFrom τ Unit) := by
  have report : Total (report e : ParseFrom τ Unit) := fun _ => ⟨_, _, rfl⟩
  have pass : Total (MonadState.get >>= fun s => synchronize insideRule s.remaining :
      ParseFrom τ Unit) :=
    get_total.bind fun s => synchronize_total insideRule _
  refine report.bind fun _ => current_total.bind fun t => ?_
  exact .ite (advance_total.bind fun _ => pass) pass

/-- A row of items comes to its end: the error of an item is noted, and passed over. -/
theorem items_total (item : ParseFrom τ Node) (insideRule : Bool) (fuel : Nat) (done : List Node) :
    Total (items item insideRule fuel done) := by
  induction fuel generalizing done with
  | zero => exact .pure _
  | succ fuel ih =>
    refine current_total.bind fun t => .ite (.pure _) ?_
    refine (accept_total _).bind fun _ => .ite (ih done) ?_
    refine (attempt_total item).bind fun r => ?_
    cases r with
    | ok n => exact ih (n :: done)
    | error e => exact (recover_total e _ insideRule).bind fun _ => ih done

theorem root_total (settings : ParseSettings) : Total (root settings : ParseFrom τ Node) :=
  current_total.bind fun _ => get_total.bind fun _ => (items_total _ _ _ _).bind fun _ =>
    get_total.bind fun _ => make_total _ _ _

/-- A root is made of the items of its source. -/
theorem run_root {settings : ParseSettings} {s t : ParseState τ} {ns : List Node}
    (h : EStateM.run (items (item settings settings.maxDepth) false s.remaining []) s = .ok ns t) :
    EStateM.run (root settings) s =
      EStateM.run (make (Node.block ns) (s.current.span.merge t.previous.span) 1) t := by
  show EStateM.run (items _ _ _ _ >>= _) _ = _
  rw [EStateM.run_bind, h]
  rfl

end Total

/-! ## Runs of computations in others -/

section Attempts

variable {s t : ParseState τ} {e : Error}

theorem run_attempt_ok {x : ParseFrom τ α} {a : α} (h : EStateM.run x s = .ok a t) :
    EStateM.run (attempt x) s = .ok (.ok a) t := by
  simp only [EStateM.run, attempt] at h ⊢
  rw [h]

theorem run_attempt_error {x : ParseFrom τ α} (h : EStateM.run x s = .error e t) :
    EStateM.run (attempt x) s = .ok (.error e) t := by
  simp only [EStateM.run, attempt] at h ⊢
  rw [h]

theorem run_inRule_ok {x : ParseFrom τ α} {a : α}
    (h : EStateM.run x { s with nesting := s.nesting + 1 } = .ok a t) :
    EStateM.run (inRule x) s = .ok a { t with nesting := t.nesting - 1 } := by
  rw [EStateM.run] at h
  rw [EStateM.run, inRule, h]

theorem run_report (e : Error) (s : ParseState τ) :
    EStateM.run (report e) s = .ok () { s with errors := s.errors.push e } :=
  rfl

theorem nextKind_bind (f : TokenKind → Parse α) :
    (nextKind >>= f) = MonadState.get >>= fun s => f s.nextKind :=
  rfl

end Attempts

/-! ## Rounds -/

section Rounds

variable [TokenSource τ] {item : ParseFrom τ Node}

/-- One round of a row of items, which comes to an item, or to none in front of a semicolon and
after an error. It begins at the offset `mark`. -/
def turn (item : ParseFrom τ Node) (insideRule : Bool) (mark : Nat) :
    ParseFrom τ (Option Node) := do
  if ← accept .semicolon then return none
  else
    match ← attempt item with
    | .ok n => return some n
    | .error e =>
      recover e mark insideRule
      return none

theorem items_succ (insideRule : Bool) (fuel : Nat) (done : List Node) :
    items item insideRule (fuel + 1) done = current >>= fun t =>
      if t.kind == .eof || (insideRule && t.kind == .rbrace) then pure done.reverse
      else turn item insideRule t.span.start >>= fun new =>
        items item insideRule fuel (new.toList ++ done) := by
  rw [items]
  refine bind_congr fun t => ite_congr rfl (fun _ => rfl) fun _ => ?_
  -- What comes behind a round is moved to its three ends.
  rw [turn, bind_assoc]
  refine bind_congr fun b => ?_
  cases b with
  | true => rfl
  | false =>
    show (attempt item >>= _) = (attempt item >>= _) >>= _
    rw [bind_assoc]
    refine bind_congr fun r => ?_
    cases r with
    | ok n => rfl
    | error e => simp

/-- What is done behind an error that was noted: tokens are passed over. -/
def passOver (mark : Nat) (insideRule : Bool) : ParseFrom τ Unit := do
  let t ← current
  if t.span.start == mark && t.kind != .eof && t.kind != .rbrace then
    let _ ← advance
  synchronize insideRule (← get).remaining

theorem recover_eq (e : Error) (mark : Nat) (insideRule : Bool) :
    (recover e mark insideRule : ParseFrom τ Unit) =
      report e >>= fun _ => passOver mark insideRule :=
  rfl

/-- A row of items ends at the end of the source, and a rule at its closing brace. -/
theorem run_items_stop {insideRule : Bool} (fuel : Nat) (done : List Node) {s : ParseState τ}
    (h : (s.current.kind == .eof || (insideRule && s.current.kind == .rbrace)) = true) :
    EStateM.run (items item insideRule (fuel + 1) done) s = .ok done.reverse s := by
  rw [items_succ]
  show EStateM.run (if _ then _ else _) s = _
  rw [h]
  rfl

/-- At the end of the source a row of items ends. -/
theorem run_items_eof (insideRule : Bool) (fuel : Nat) (done : List Node) {s : ParseState τ}
    (h : s.current.kind = .eof) :
    EStateM.run (items item insideRule fuel done) s = .ok done.reverse s := by
  cases fuel with
  | zero => rfl
  | succ fuel => exact run_items_stop fuel done (by rw [h]; rfl)

/-- A row of items goes on behind a round. -/
theorem run_items_turn {insideRule : Bool} (fuel : Nat) (done : List Node) {s t : ParseState τ}
    {new : Option Node}
    (h : (s.current.kind == .eof || (insideRule && s.current.kind == .rbrace)) = false)
    (hturn : EStateM.run (turn item insideRule s.current.span.start) s = .ok new t) :
    EStateM.run (items item insideRule (fuel + 1) done) s =
      EStateM.run (items item insideRule fuel (new.toList ++ done)) t := by
  rw [items_succ]
  show EStateM.run (if _ then _ else _) s = _
  rw [h]
  show EStateM.run (turn item insideRule s.current.span.start >>= _) s = _
  rw [EStateM.run_bind, hturn]

theorem turn_total (item : Parse Node) (insideRule : Bool) (mark : Nat) :
    Total (turn item insideRule mark) := by
  refine (accept_total _).bind fun _ => .ite (.pure _) ((attempt_total item).bind fun r => ?_)
  cases r with
  | ok n => exact .pure _
  | error e => exact (recover_total e mark insideRule).bind fun _ => .pure _

theorem run_turn_semicolon (insideRule : Bool) (mark : Nat) {s : ParseState τ}
    (h : s.current.kind = .semicolon) :
    EStateM.run (turn item insideRule mark) s = .ok none s.advance := by
  have haccept : EStateM.run (accept .semicolon) s = .ok true s.advance := by
    show EStateM.run (if (s.current.kind == .semicolon) = true then _ else _) s = _
    rw [h]
    rfl
  rw [turn, EStateM.run_bind, haccept]
  rfl

/-- The item of a round, and what follows an error in it. -/
theorem run_turn (insideRule : Bool) (mark : Nat) {s : ParseState τ}
    (h : s.current.kind ≠ .semicolon) : EStateM.run (turn item insideRule mark) s =
      match EStateM.run item s with
      | .ok n t => .ok (some n) t
      | .error e t => EStateM.run (recover e mark insideRule >>= fun _ => pure none) t := by
  have haccept : EStateM.run (accept .semicolon) s = .ok false s := by
    have hkind : (s.current.kind == .semicolon) = false := beq_eq_false_iff_ne.2 h
    show EStateM.run (if (s.current.kind == .semicolon) = true then _ else _) s = _
    rw [hkind]
    rfl
  rw [turn, EStateM.run_bind, haccept]
  show EStateM.run (attempt item >>= _) s = _
  rw [EStateM.run_bind]
  simp only [EStateM.run, attempt]
  cases item s <;> rfl

end Rounds

end Parse

end Rulebook
