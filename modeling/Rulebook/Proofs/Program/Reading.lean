import Rulebook.Proofs.Program.Streamed
import Rulebook.Proofs.Program.Wording

/-!
# Reading formulas back

A parser that goes on as long as operators bind tightly enough reads the tokens of a formula as a
tree of that formula, if what follows does not take it further. So the text of a tree is read back
as an equal tree.

## Main definitions

* `ParseState.Stands`: a parse is in front of tokens of given kinds, without errors so far
* `Parse.Reads`: from such a place a computation comes to another one, with a result as described
* `TokenKind.Stops`: a token that takes no expression further
* `Parse.Resumes`: what comes behind the first operand of an expression is read

## Main results

* `Parse.readsFirst`: the tokens of a formula are read as a tree of the formula
* `Parse.root_reads`: a decision on a formula is read as the only statement of a source
* `Program.parse_text`: the text of a tree is read back
-/

namespace Rulebook

/-! ## Places of a parse -/

/-- A parse is in front of significant tokens of given kinds, at a depth, outside of rules and
without errors so far. -/
structure ParseState.Stands (depth : Nat) (kinds : List TokenKind) (s : ParseState) : Prop where
  ahead : (s.current :: s.rest).map Token.kind = kinds
  significant : ∀ k ∈ kinds, k.isSignificant = true
  depth : s.depth = depth
  nesting : s.nesting = 0
  errors : s.errors = #[]

namespace Parse

open ParseState (Stands)

section Computations

variable {α β : Type} {d : Nat} {k k' : TokenKind} {ks ks' ks'' : List TokenKind} {P : α → Prop}
  {Q : β → Prop}

/-- In front of tokens of given kinds a computation comes to a result as described, and to the
place in front of other ones. -/
def Reads (d : Nat) (ks : List TokenKind) (x : Parse α) (ks' : List TokenKind) (P : α → Prop) :
    Prop :=
  ∀ s, Stands d ks s → ∃ a t, EStateM.run x s = .ok a t ∧ Stands d ks' t ∧ P a

theorem Reads.pure {a : α} (h : P a) : Reads d ks (pure a) ks P :=
  fun s hs => ⟨a, s, rfl, hs, h⟩

theorem Reads.bind {x : Parse α} {f : α → Parse β} (hx : Reads d ks x ks' P)
    (hf : ∀ a, P a → Reads d ks' (f a) ks'' Q) : Reads d ks (x >>= f) ks'' Q := by
  intro s hs
  obtain ⟨a, t, hrun, ht, ha⟩ := hx s hs
  obtain ⟨b, u, hrun', hu, hb⟩ := hf a ha t ht
  refine ⟨b, u, ?_, hu, hb⟩
  rw [EStateM.run_bind, hrun]
  exact hrun'

theorem Reads.mono {x : Parse α} {P' : α → Prop} (hx : Reads d ks x ks' P) (h : ∀ a, P a → P' a) :
    Reads d ks x ks' P' := by
  intro s hs
  obtain ⟨a, t, hrun, ht, ha⟩ := hx s hs
  exact ⟨a, t, hrun, ht, h a ha⟩

theorem Reads.get {f : ParseState → Parse β}
    (h : ∀ s, Stands d ks s → Reads d ks (f s) ks' Q) :
    Reads d ks (MonadState.get >>= f) ks' Q :=
  fun s hs => h s hs s hs

theorem Reads.current {f : Token → Parse β}
    (h : ∀ t : Token, t.kind = k → Reads d (k :: ks) (f t) ks' Q) :
    Reads d (k :: ks) (current >>= f) ks' Q :=
  .get fun s hs => h s.current (List.cons.inj hs.ahead).1

theorem Reads.isAt (kind : TokenKind) {f : Bool → Parse β}
    (h : Reads d (k :: ks) (f (k == kind)) ks' Q) : Reads d (k :: ks) (isAt kind >>= f) ks' Q := by
  refine .get fun s hs => ?_
  show Reads d (k :: ks) (f (s.current.kind == kind)) ks' Q
  rw [(List.cons.inj hs.ahead).1]
  exact h

/-- What is behind the current token. -/
theorem exists_rest {s : ParseState} (h : Stands d (k :: k' :: ks) s) :
    ∃ t rest, s.rest = t :: rest ∧ t.kind = k' ∧ t.kind.isSignificant = true ∧
      (t :: rest).map Token.kind = k' :: ks := by
  have hkinds := (List.cons.inj h.ahead).2
  obtain ⟨t, rest, hrest, ht, hmap⟩ := List.map_eq_cons_iff.1 hkinds
  refine ⟨t, rest, hrest, ht, ?_, by rw [List.map_cons, ht, hmap]⟩
  rw [ht]
  exact h.significant k' (List.mem_cons_of_mem _ (List.mem_cons_self ..))

theorem stands_advance {s : ParseState} (h : Stands d (k :: k' :: ks) s) :
    Stands d (k' :: ks) s.advance := by
  obtain ⟨t, rest, hrest, -, ht, hkinds⟩ := exists_rest h
  have hnext : nextSignificant? s.rest = some (t, rest) := by
    rw [hrest, nextSignificant?, if_pos ht]
  rw [ParseState.advance_some hnext]
  exact ⟨hkinds, (List.forall_mem_cons.1 h.significant).2, h.depth, h.nesting, h.errors⟩

/-- What is found behind the current token. -/
theorem nextKind_of_stands {s : ParseState} (h : Stands d (k :: k' :: ks) s) : s.nextKind = k' := by
  obtain ⟨t, rest, hrest, rfl, ht, -⟩ := exists_rest h
  have hfind : ((t :: rest).take lookaheadLimit).find? (·.kind.isSignificant) = some t :=
    List.find?_cons_of_pos ht
  rw [ParseState.nextKind, hrest, lookahead, hfind]

/-- What is found behind the current token is the kind that stands there. -/
theorem Reads.nextKind {f : TokenKind → Parse β}
    (h : Reads d (k :: k' :: ks) (f k') ks' Q) :
    Reads d (k :: k' :: ks) (nextKind >>= f) ks' Q := by
  rw [nextKind_bind]
  refine .get fun s hs => ?_
  rw [nextKind_of_stands hs]
  exact h

theorem advance_reads : Reads d (k :: k' :: ks) advance (k' :: ks) fun _ => True :=
  fun s hs => ⟨s.current, s.advance, rfl, stands_advance hs, trivial⟩

theorem Reads.take {f : Token → Parse β} (h : ∀ t, Reads d (k' :: ks) (f t) ks' Q) :
    Reads d (k :: k' :: ks) (advance >>= f) ks' Q :=
  advance_reads.bind fun t _ => h t

theorem accept_reads_of_ne {kind : TokenKind} (h : k ≠ kind) :
    Reads d (k :: ks) (accept kind) (k :: ks) (· = false) := by
  refine .isAt kind ?_
  rw [beq_eq_false_iff_ne.2 h]
  exact .pure rfl

theorem expect_reads {what : String} :
    Reads d (k :: k' :: ks) (expect k what) (k' :: ks) fun _ => True := by
  refine .isAt k ?_
  rw [beq_self_eq_true]
  exact advance_reads

theorem make_reads {node : Fresh Node} {span : Span} {line : Nat} {P : Node → Prop}
    (h : ∀ id, P ((node id).1.withSpan span line)) : Reads d ks (make node span line) ks P :=
  fun s hs => ⟨_, _, rfl, ⟨hs.ahead, hs.significant, hs.depth, hs.nesting, hs.errors⟩, h s.nextId⟩

theorem checkHeight_reads {height : Nat} (h : height < maxTreeDepth) :
    Reads d ks (checkHeight height) ks fun _ => True := by
  refine .get fun s hs => ?_
  rw [hs.nesting, if_neg]
  · exact .pure trivial
  · exact Nat.not_lt.2 (Nat.le_sub_one_of_lt h)

theorem nested_reads {settings : ParseSettings} {x : Parse α} (hd : d < settings.maxDepth)
    (hx : Reads (d + 1) ks x ks' P) : Reads d ks (nested settings x) ks' P := by
  intro s hs
  obtain ⟨a, t, hrun, ht, ha⟩ := hx { s with depth := s.depth + 1 }
    ⟨hs.ahead, hs.significant, congrArg (· + 1) hs.depth, hs.nesting, hs.errors⟩
  -- The depth is the old one again behind the production.
  refine ⟨a, { t with depth := t.depth - 1 }, ?_,
    ⟨ht.ahead, ht.significant, congrArg (· - 1) ht.depth, ht.nesting, ht.errors⟩, ha⟩
  simp only [EStateM.run] at hrun
  simp only [EStateM.run, nested, hs.depth, if_neg (Nat.not_le.2 hd)]
  rw [hs.depth] at hrun
  rw [hrun]

theorem attempt_reads {x : Parse α} (hx : Reads d ks x ks' P) :
    Reads d ks (attempt x) ks' fun r => ∃ a, r = .ok a ∧ P a := by
  intro s hs
  obtain ⟨a, t, hrun, ht, ha⟩ := hx s hs
  refine ⟨.ok a, t, ?_, ht, a, rfl, ha⟩
  simp only [EStateM.run] at hrun
  simp only [EStateM.run, attempt, hrun]

end Computations

end Parse

/-! ## Ends of expressions -/

section Ends

/-- A token that takes no expression further whose operators bind at least as tightly as asked. -/
structure TokenKind.Stops (strength : Nat) (k : TokenKind) : Prop where
  ne_lparen : k ≠ .lparen
  ne_assign : k ≠ .assign
  looser : ∀ j, Joint.ofToken? k = some j → j.strength < strength

variable {strength strength' : Nat} {k : TokenKind}

theorem TokenKind.Stops.mono (h : k.Stops strength) (hle : strength ≤ strength') :
    k.Stops strength' :=
  ⟨h.ne_lparen, h.ne_assign, fun j hj => Nat.lt_of_lt_of_le (h.looser j hj) hle⟩

/-- Tokens that are no operators. -/
theorem TokenKind.stops_of_none (hlparen : k ≠ .lparen) (hassign : k ≠ .assign)
    (h : Joint.ofToken? k = none) (strength : Nat) : k.Stops strength := by
  refine ⟨hlparen, hassign, fun j hj => ?_⟩
  rw [h] at hj
  cases hj

/-- Signs bind tighter than what stands between two operands. -/
theorem Joint.strength_lt_unary (j : Joint) (h : Joint.ofToken? k = some j) :
    j.strength < Strength.unary := by
  unfold Joint.ofToken? at h
  split at h <;> cases h <;> decide

/-- Operators end the operand in front of them. -/
theorem BinaryOp.stops_token (op : BinaryOp) : op.token.Stops (op.strength + 1) := by
  have hjoint := op.ofToken?_token
  refine ⟨?_, ?_, fun j hj => ?_⟩
  · intro h
    rw [h] at hjoint
    cases hjoint
  · intro h
    rw [h] at hjoint
    cases hjoint
  · rw [hjoint] at hj
    cases hj
    exact Nat.lt_succ_self _

end Ends

/-- Without golf letters a token is the same in all contexts. -/
theorem Token.inContext_false (t : Token) (context : ReadContext) :
    t.inContext false context = t := by
  have hkind (kind : TokenKind) : kind.inContext false context = kind := by
    cases kind <;> rfl
  rw [inContext, hkind]

namespace Parse

/-! ## Operands -/

section Operands

variable {settings : ParseSettings} {operand : OperandParser} {context : ReadContext}
  {d : Nat} {k : TokenKind} {ks ks' : List TokenKind} {f : Formula}

theorem primary_identifier_reads (hgolf : settings.golf = false) (name : Identifier)
    (hlparen : k ≠ .lparen) (hassign : k ≠ .assign) :
    Reads d (.identifier name.text :: k :: ks) (primary settings operand context) (k :: ks)
      (·.HasForm (.identifier name)) := by
  refine .current fun t ht => ?_
  dsimp only
  rw [hgolf, Token.inContext_false, ht]
  refine .nextKind ?_
  split
  · exact absurd rfl hlparen
  · exact absurd rfl hassign
  · exact .take fun _ => make_reads fun id => ⟨rfl, rfl⟩

theorem primary_ruleCall_reads (hgolf : settings.golf = false) (name : Identifier) :
    Reads d (.identifier name.text :: .lparen :: .rparen :: k :: ks)
      (primary settings operand context) (k :: ks) (·.HasForm (.ruleCall name)) := by
  refine .current fun t ht => ?_
  dsimp only
  rw [hgolf, Token.inContext_false, ht]
  refine .nextKind (.take fun _ => .take fun _ => ?_)
  exact expect_reads.bind fun _ _ => make_reads fun id => ⟨rfl, rfl⟩

theorem primary_constant_reads (hgolf : settings.golf = false) (c : Constant) :
    Reads d (c.token :: k :: ks) (primary settings operand context) (k :: ks)
      (·.HasForm (.constant c)) := by
  refine .current fun t ht => ?_
  dsimp only
  rw [hgolf, Token.inContext_false, ht]
  cases c with
  | null => exact .take fun _ => make_reads fun id => ⟨rfl, rfl⟩
  | bool b => cases b <;> exact .take fun _ => make_reads fun id => ⟨rfl, rfl⟩

/-- A sign, given that its operand is read. -/
theorem primary_signed_reads (hgolf : settings.golf = false) (sign : Sign)
    (hoperand : Reads d ks (operand Strength.unary context) ks' (·.HasForm f)) (hne : ks ≠ []) :
    Reads d (sign.token :: ks) (primary settings operand context) ks'
      (·.HasForm (.signed sign f)) := by
  obtain ⟨k, ks, rfl⟩ := List.exists_cons_of_ne_nil hne
  refine .current fun t ht => ?_
  dsimp only
  rw [hgolf, Token.inContext_false, ht]
  cases sign with
  | not =>
    refine .take fun _ => hoperand.bind fun n hn => make_reads fun id => ?_
    exact (hn.signed .not id).withSpan _ _
  | minus =>
    refine .take fun _ => hoperand.bind fun n hn => make_reads fun id => ?_
    exact (hn.signed .minus id).withSpan _ _

/-- Parentheses, given that what is between them is read. -/
theorem primary_parenthesized_reads (hgolf : settings.golf = false)
    (hoperand : Reads d ks (operand 0 context) (.rparen :: k :: ks') (·.HasForm f))
    (hne : ks ≠ []) :
    Reads d (.lparen :: ks) (primary settings operand context) (k :: ks') (·.HasForm f) := by
  obtain ⟨k, ks, rfl⟩ := List.exists_cons_of_ne_nil hne
  refine .current fun t ht => ?_
  dsimp only
  rw [hgolf, Token.inContext_false, ht]
  exact .take fun _ => hoperand.bind fun n hn => expect_reads.bind fun _ _ => .pure hn

end Operands

/-! ## Formulas -/

section Formulas

variable {settings : ParseSettings} {levels strength d : Nat} {context : ReadContext}
  {k : TokenKind} {ks ks' : List TokenKind} {f : Formula} {P : Node → Prop}

/-- Operations behind a tree of a formula end in a place, with a result as described. -/
def Resumes (settings : ParseSettings) (levels strength : Nat) (context : ReadContext) (d : Nat)
    (f : Formula) (ks ks' : List TokenKind) (P : Node → Prop) : Prop :=
  ∀ n fuel, n.HasForm f → ks.length ≤ fuel →
    Reads d ks (operations settings (expr settings levels) strength context fuel n f.depth) ks' P

/-- Operands at the front of an expression. -/
theorem exprWith_reads {toks : List TokenKind}
    (hprimary : Reads d toks (primary settings (expr settings levels) context) ks (·.HasForm f))
    (hdepth : f.depth < maxTreeDepth)
    (hrest : Resumes settings levels strength context d f ks ks' P) :
    Reads d toks (exprWith settings (expr settings levels) strength context) ks' P := by
  refine hprimary.bind fun n hn => ?_
  rw [hn.depth_eq]
  refine (checkHeight_reads hdepth).bind fun _ _ => ?_
  refine .get fun s hs => hrest n s.remaining hn ?_
  rw [← hs.ahead, List.length_map, List.length_cons]
  exact Nat.le_refl _

/-- There is no further operation in front of a token that stops the expression. -/
theorem operations_reads_of_stops {operand : OperandParser} (hk : k.Stops strength) (fuel : Nat)
    {n : Node} (hn : P n) (height : Nat) :
    Reads d (k :: ks) (operations settings operand strength context fuel n height) (k :: ks) P := by
  cases fuel with
  | zero => exact .pure hn
  | succ fuel =>
    refine .current fun t ht => ?_
    rw [ht]
    cases hjoint : Joint.ofToken? k with
    | none => exact .pure hn
    | some joint =>
      have hlt : joint.strength < strength := hk.looser joint hjoint
      dsimp only
      rw [if_pos hlt]
      exact .pure hn

theorem resumes_of_stops (hk : k.Stops strength) :
    Resumes settings levels strength context d f (k :: ks) (k :: ks) (·.HasForm f) :=
  fun _ fuel hn _ => operations_reads_of_stops hk fuel hn f.depth

/-- The tokens of a formula are read at the front of an expression, if the operations behind it
are. An operand may take two levels for each level of the formula, since the parentheses around it
take one too. -/
def ReadsFirst (settings : ParseSettings) (f : Formula) : Prop :=
  ∀ {levels strength d : Nat} {context : ReadContext} {k : TokenKind} {ks ks' : List TokenKind}
    {P : Node → Prop}, strength ≤ f.strength → k.Stops (f.strength + 1) →
    2 * f.depth ≤ levels + 2 → d + levels ≤ settings.maxDepth → f.depth < maxTreeDepth →
    Resumes settings levels strength context d f (k :: ks) ks' P →
    Reads d (f.tokens ++ k :: ks) (exprWith settings (expr settings levels) strength context) ks' P

/-- A whole expression. -/
theorem whole_reads (hf : ReadsFirst settings f) (hk : k.Stops 0)
    (hlevels : 2 * f.depth ≤ levels + 1) (hd : d + levels ≤ settings.maxDepth)
    (hdepth : f.depth < maxTreeDepth) :
    Reads d (f.tokens ++ k :: ks) (expr settings levels 0 context) (k :: ks) (·.HasForm f) := by
  have hpos := f.depth_pos
  obtain ⟨levels, rfl⟩ : ∃ l, levels = l + 1 := ⟨levels - 1, by omega⟩
  refine nested_reads (by omega) ?_
  exact hf (Nat.zero_le _) (hk.mono (Nat.zero_le _)) (by omega) (by omega) hdepth
    (resumes_of_stops hk)

/-- A formula in a place that asks for a strength, at the front of an expression. -/
theorem tokensAt_reads (hgolf : settings.golf = false) (hf : ReadsFirst settings f) {place : Nat}
    (hstrength : strength ≤ place) (hk : k.Stops (place + 1)) (hlevels : 2 * f.depth ≤ levels + 1)
    (hd : d + levels ≤ settings.maxDepth) (hdepth : f.depth < maxTreeDepth)
    (hrest : Resumes settings levels strength context d f (k :: ks) ks' P) :
    Reads d (f.tokensAt place ++ k :: ks)
      (exprWith settings (expr settings levels) strength context) ks' P := by
  by_cases hloose : f.strength < place
  -- In parentheses the formula is an expression of its own, whatever stands behind them.
  · have htokens : f.tokensAt place ++ k :: ks = .lparen :: (f.tokens ++ .rparen :: k :: ks) := by
      rw [Formula.tokensAt, Formula.enclosed, if_pos hloose]
      simp
    have hrparen : TokenKind.rparen.Stops 0 := TokenKind.stops_of_none (by simp) (by simp) rfl 0
    rw [htokens]
    refine exprWith_reads (primary_parenthesized_reads hgolf ?_ (by simp)) hdepth hrest
    exact whole_reads hf hrparen hlevels hd hdepth
  -- Without them it is the beginning of the expression that goes on behind it.
  · have htokens : f.tokensAt place = f.tokens := by
      rw [Formula.tokensAt, Formula.enclosed, if_neg hloose]
    rw [htokens]
    exact hf (by omega) (hk.mono (by omega)) (by omega) hd hdepth hrest

/-- An operand in a place that asks for a strength. -/
theorem operand_reads (hgolf : settings.golf = false) (hf : ReadsFirst settings f) {place : Nat}
    (hk : k.Stops place) (hlevels : 2 * f.depth ≤ levels) (hd : d + levels ≤ settings.maxDepth)
    (hdepth : f.depth < maxTreeDepth) :
    Reads d (f.tokensAt place ++ k :: ks) (expr settings levels place context) (k :: ks)
      (·.HasForm f) := by
  have hpos := f.depth_pos
  obtain ⟨levels, rfl⟩ : ∃ l, levels = l + 1 := ⟨levels - 1, by omega⟩
  refine nested_reads (by omega) ?_
  exact tokensAt_reads hgolf hf (Nat.le_refl place) (hk.mono (Nat.le_succ _)) hlevels (by omega)
    hdepth (resumes_of_stops hk)

/-- An operator and its second operand, behind the first one. -/
theorem operation_reads (op : BinaryOp) {g : Formula} {operand : OperandParser} {n : Node}
    (hn : n.HasForm f) (hne : ks ≠ [])
    (hoperand : Reads d ks (operand (op.strength + 1) context) ks' (·.HasForm g)) :
    Reads d (op.token :: ks) (operation settings operand op.joint n context) ks'
      (·.HasForm (.joined op f g)) := by
  obtain ⟨k, ks, rfl⟩ := List.exists_cons_of_ne_nil hne
  refine .take fun _ => ?_
  cases op with
  | logic op h =>
    refine hoperand.bind fun m hm => make_reads fun id => ?_
    exact (hn.joined (.logic op h) hm id).withSpan _ _
  | comparison op =>
    refine hoperand.bind fun m hm => make_reads fun id => ?_
    exact (hn.joined (.comparison op) hm id).withSpan _ _
  | arithmetic op h =>
    refine hoperand.bind fun m hm => make_reads fun id => ?_
    exact (hn.joined (.arithmetic op h) hm id).withSpan _ _

theorem stackedHeight_joined {op : BinaryOp} {g : Formula} {n : Node}
    (h : n.HasForm (.joined op f g)) : stackedHeight n f.depth = (Formula.joined op f g).depth := by
  obtain ⟨a, b, hkind, hchildren, -, hb⟩ := h
  have hchild : n.childNodes = [a, b] := by
    rw [Node.childNodes, hkind, hchildren]
    cases op <;> rfl
  rw [stackedHeight, hchild, Formula.depth, ← hb.depth_eq]
  simp

/-- An operator and its second operand behind a formula, and what comes behind them. -/
theorem resumes_joined {op : BinaryOp} {g : Formula}
    (hstrength : strength ≤ op.strength)
    (hdepth : (Formula.joined op f g).depth < maxTreeDepth)
    (hoperand : Reads d ks (expr settings levels (op.strength + 1) context) (k :: ks')
      (·.HasForm g)) (hlength : (k :: ks').length ≤ ks.length) {ks'' : List TokenKind}
    (hrest : Resumes settings levels strength context d (.joined op f g) (k :: ks') ks'' P) :
    Resumes settings levels strength context d f (op.token :: ks) ks'' P := by
  intro n fuel hn hfuel
  rw [List.length_cons] at hfuel
  obtain ⟨fuel, rfl⟩ : ∃ l, fuel = l + 1 := ⟨fuel - 1, by omega⟩
  have hne : ks ≠ [] := by
    rintro rfl
    cases hlength
  -- The operator binds tightly enough for the loop to go on with it.
  have htight : ¬op.joint.strength < strength := Nat.not_lt.2 hstrength
  refine .current fun t ht => ?_
  rw [ht, op.ofToken?_token]
  dsimp only
  rw [if_neg htight]
  refine (operation_reads op hn hne hoperand).bind fun m hm => ?_
  rw [stackedHeight_joined hm]
  refine (checkHeight_reads hdepth).bind fun _ _ => ?_
  exact hrest m fuel hm (by omega)

/-- The tokens of each formula are read as a tree of the formula. -/
theorem readsFirst (hgolf : settings.golf = false) (f : Formula) : ReadsFirst settings f := by
  -- The induction carries along what comes behind a formula: the first operand of an operator is
  -- read by the loop that goes on with the operator, so it is not read on its own.
  induction f with
  | identifier name =>
    intro levels strength d context k ks ks' P _ hk _ _ hdepth hrest
    exact exprWith_reads (primary_identifier_reads hgolf name hk.ne_lparen hk.ne_assign) hdepth
      hrest
  | ruleCall name =>
    intro levels strength d context k ks ks' P _ _ _ _ hdepth hrest
    exact exprWith_reads (primary_ruleCall_reads hgolf name) hdepth hrest
  | constant c =>
    intro levels strength d context k ks ks' P _ _ _ _ hdepth hrest
    exact exprWith_reads (primary_constant_reads hgolf c) hdepth hrest
  | signed sign f ih =>
    intro levels strength d context k ks ks' P _ hk hlevels hd hdepth hrest
    -- The operand of a sign takes no operator, as none binds as tightly.
    have hunary : k.Stops Strength.unary :=
      ⟨hk.ne_lparen, hk.ne_assign, fun j hj => j.strength_lt_unary hj⟩
    have hlt : f.depth < (Formula.signed sign f).depth := Nat.lt_add_of_pos_left Nat.one_pos
    have hoperand : Reads d (f.tokensAt Strength.unary ++ k :: ks)
        (expr settings levels Strength.unary context) (k :: ks) (·.HasForm f) :=
      operand_reads hgolf ih hunary (by omega) hd (by omega)
    exact exprWith_reads (primary_signed_reads hgolf sign hoperand (by simp)) hdepth hrest
  | joined op f g ihf ihg =>
    intro levels strength d context k ks ks' P hstrength hk hlevels hd hdepth hrest
    have hleft : f.depth < (Formula.joined op f g).depth := by
      rw [Formula.depth]
      omega
    have hright : g.depth < (Formula.joined op f g).depth := by
      rw [Formula.depth]
      omega
    -- The second operand ends where the operation ends: what stands there binds no tighter.
    have hoperand : Reads d (g.tokensAt (op.strength + 1) ++ k :: ks)
        (expr settings levels (op.strength + 1) context) (k :: ks) (·.HasForm g) :=
      operand_reads hgolf ihg hk (by omega) hd (by omega)
    have htokens : (Formula.joined op f g).tokens ++ k :: ks =
        f.tokensAt op.strength ++ op.token :: (g.tokensAt (op.strength + 1) ++ k :: ks) := by
      rw [Formula.tokens, List.append_assoc]
      rfl
    rw [htokens]
    refine tokensAt_reads hgolf ihf hstrength op.stops_token (by omega) hd (by omega) ?_
    exact resumes_joined hstrength hdepth hoperand (by simp) hrest

end Formulas

/-! ## Decisions -/

section Decisions

variable {settings : ParseSettings} {levels strength d : Nat} {context : ReadContext}
  {k : TokenKind} {ks : List TokenKind} {f : Formula}

/-- An expression without operators behind it. -/
theorem exprWith_reads_of_stops {operand : OperandParser} {toks : List TokenKind} {P : Node → Prop}
    (hprimary : Reads d toks (primary settings operand context) (k :: ks) P)
    (hdepth : ∀ n, P n → n.depth < maxTreeDepth) (hk : k.Stops strength) :
    Reads d toks (exprWith settings operand strength context) (k :: ks) P := by
  refine hprimary.bind fun n hn => ?_
  refine (checkHeight_reads (hdepth n hn)).bind fun _ _ => ?_
  exact .get fun s _ => operations_reads_of_stops hk s.remaining hn n.depth

/-- A consequence without operands. -/
def IsOutcome (n : Node) : Prop :=
  (∃ c, n.kind = .consequence c) ∧ n.children = []

/-- A decision on a formula, with a consequence without operands. -/
def IsDecision (f : Formula) (n : Node) : Prop :=
  (∃ condition yes, n.kind = .decision (some condition) (some yes) none ∧ condition.HasForm f ∧
    IsOutcome yes) ∧ n.children = []

theorem IsOutcome.withParent {n : Node} (h : IsOutcome n) (id : NodeId) :
    IsOutcome (n.withParent id) :=
  h

theorem IsOutcome.depth_eq {n : Node} (h : IsOutcome n) : n.depth = 1 := by
  obtain ⟨⟨c, hkind⟩, hchildren⟩ := h
  rw [Node.depth_eq, Node.childNodes, hkind, hchildren]
  rfl

theorem IsDecision.depth_eq {n : Node} (h : IsDecision f n) : n.depth = 1 + f.depth := by
  obtain ⟨⟨condition, yes, hkind, hcondition, hyes⟩, hchildren⟩ := h
  have hpos := f.depth_pos
  rw [Node.depth_eq, Node.childNodes, hkind, hchildren]
  simp [Kind.operands, Kind.slots, Node.tallest, hcondition.depth_eq, hyes.depth_eq]
  omega

theorem primary_verdict_reads (hgolf : settings.golf = false) {operand : OperandParser}
    (v : Verdict) (hk : k ≠ .lparen) :
    Reads d (.verdict v :: k :: ks) (primary settings operand context) (k :: ks) IsOutcome := by
  refine .current fun t ht => ?_
  dsimp only
  rw [hgolf, Token.inContext_false, ht]
  refine .take fun _ => (accept_reads_of_ne hk).bind fun b hb => ?_
  rw [hb, if_neg Bool.false_ne_true]
  exact make_reads fun id => ⟨⟨_, rfl⟩, rfl⟩

/-- A verdict where a consequence is expected. -/
theorem consequence_reads (hgolf : settings.golf = false) (v : Verdict) (hk : k.Stops 0)
    (hlevels : 0 < levels) (hd : d + levels ≤ settings.maxDepth) :
    Reads d (.verdict v :: k :: ks) (consequence settings (expr settings levels)) (k :: ks)
      IsOutcome := by
  obtain ⟨levels, rfl⟩ : ∃ l, levels = l + 1 := ⟨levels - 1, by omega⟩
  have hverdict : Reads d (.verdict v :: k :: ks) (expr settings (levels + 1) 0 .consequence)
      (k :: ks) IsOutcome := by
    refine nested_reads (by omega) ?_
    refine exprWith_reads_of_stops (primary_verdict_reads hgolf v hk.ne_lparen) ?_ hk
    intro n hn
    rw [hn.depth_eq]
    decide
  refine hverdict.bind fun n hn => ?_
  obtain ⟨c, hkind⟩ := hn.1
  rw [toConsequence, hkind]
  exact .pure hn

/-- The tokens of a decision on a formula, whose consequence is a verdict. -/
def decisionTokens (f : Formula) (v : Verdict) : List TokenKind :=
  .kwIf :: f.tokens ++ [.kwThen, .verdict v, .kwEnd, .eof]

theorem decisionTail_reads (hgolf : settings.golf = false) (v : Verdict) {condition : Node}
    (hcondition : condition.HasForm f) (start : Token) (hlevels : 0 < levels)
    (hd : d + levels ≤ settings.maxDepth) :
    Reads d (.verdict v :: .kwEnd :: k :: ks)
      (decisionTail settings (expr settings levels) condition start) (k :: ks) (IsDecision f) := by
  have hend : TokenKind.kwEnd.Stops 0 := TokenKind.stops_of_none (by simp) (by simp) rfl 0
  refine (consequence_reads hgolf v hend hlevels hd).bind fun yes hyes => ?_
  refine (accept_reads_of_ne (by simp)).bind fun b hb => ?_
  rw [hb, if_neg Bool.false_ne_true, pure_bind]
  refine expect_reads.bind fun close _ => make_reads fun id => ⟨⟨_, _, rfl, ?_, ?_⟩, rfl⟩
  · exact hcondition.withParent id
  · exact hyes.withParent id

theorem ifDecision_reads (hgolf : settings.golf = false) (v : Verdict)
    (hlevels : 2 * f.depth ≤ levels) (hd : d + levels ≤ settings.maxDepth)
    (hdepth : f.depth < maxTreeDepth) :
    Reads d (decisionTokens f v) (ifDecision settings (expr settings levels)) [.eof]
      (IsDecision f) := by
  have hpos := f.depth_pos
  have hthen : TokenKind.kwThen.Stops 0 := TokenKind.stops_of_none (by simp) (by simp) rfl 0
  obtain ⟨k, ks, hks⟩ : ∃ k ks, f.tokens ++ [.kwThen, .verdict v, .kwEnd, .eof] = k :: ks :=
    List.exists_cons_of_ne_nil (by simp)
  rw [decisionTokens, List.cons_append, hks]
  refine .take fun start => ?_
  rw [← hks]
  have hcondition : Reads d (f.tokens ++ .kwThen :: [.verdict v, .kwEnd, .eof])
      (expr settings levels 0 .condition) (.kwThen :: [.verdict v, .kwEnd, .eof]) (·.HasForm f) :=
    whole_reads (readsFirst hgolf f) hthen (by omega) hd hdepth
  refine hcondition.bind fun condition hc => expect_reads.bind fun _ _ => ?_
  exact decisionTail_reads hgolf v hc start (by omega) hd

/-- A decision, as an expression of its own. -/
theorem expr_decision_reads (hgolf : settings.golf = false) (v : Verdict)
    (hlevels : 2 * f.depth + 1 ≤ levels) (hd : d + levels ≤ settings.maxDepth)
    (hdepth : f.depth + 1 < maxTreeDepth) :
    Reads d (decisionTokens f v) (expr settings levels 0 context) [.eof] (IsDecision f) := by
  have heof : TokenKind.eof.Stops 0 := TokenKind.stops_of_none (by simp) (by simp) rfl 0
  obtain ⟨levels, rfl⟩ : ∃ l, levels = l + 1 := ⟨levels - 1, by omega⟩
  refine nested_reads (by omega) (exprWith_reads_of_stops ?_ (fun n hn => ?_) heof)
  · refine .current fun t ht => ?_
    dsimp only
    rw [hgolf, Token.inContext_false, ht]
    exact ifDecision_reads hgolf v (by omega) (by omega) (by omega)
  · rw [hn.depth_eq]
    omega

theorem IsDecision.toConsequence_eq {n : Node} (h : IsDecision f n) :
    toConsequence settings n = (pure n : Parse Node) := by
  obtain ⟨⟨condition, yes, hkind, -⟩, -⟩ := h
  rw [toConsequence, hkind]

theorem statement_reads (hgolf : settings.golf = false) (v : Verdict)
    (hlevels : 2 * f.depth + 1 ≤ levels) (hd : d + levels ≤ settings.maxDepth)
    (hdepth : f.depth + 1 < maxTreeDepth) :
    Reads d (decisionTokens f v) (statement settings (expr settings levels)) [.eof]
      (IsDecision f) := by
  refine .current fun start _ => ?_
  refine (expr_decision_reads hgolf v hlevels hd hdepth).bind fun n hn => ?_
  refine (accept_reads_of_ne (by simp)).bind fun b hb => ?_
  rw [hb, if_neg Bool.false_ne_true, hn.toConsequence_eq]
  exact .pure hn

theorem item_reads (hgolf : settings.golf = false) (v : Verdict)
    (hlevels : 2 * f.depth + 1 ≤ levels) (hd : d + levels ≤ settings.maxDepth)
    (hdepth : f.depth + 1 < maxTreeDepth) :
    Reads d (decisionTokens f v) (item settings levels) [.eof] (IsDecision f) := by
  obtain ⟨levels, rfl⟩ : ∃ l, levels = l + 1 := ⟨levels - 1, by omega⟩
  exact .isAt .kwRule (statement_reads hgolf v hlevels hd hdepth)

/-- A row of items ends at the end of the source. -/
theorem items_reads_of_eof (item : Parse Node) (fuel : Nat) (done : List Node) :
    Reads d [.eof] (items item false fuel done) [.eof] (· = done.reverse) := by
  cases fuel with
  | zero => exact .pure rfl
  | succ fuel =>
    rw [items_succ]
    refine .current fun t ht => ?_
    rw [ht]
    exact .pure rfl

theorem turn_reads {item : Parse Node} {P : Node → Prop}
    (hitem : Reads d (k :: ks) item [.eof] P) (hsemicolon : k ≠ .semicolon) (mark : Nat) :
    Reads d (k :: ks) (turn item false mark) [.eof] fun new => ∃ n, new = some n ∧ P n := by
  refine (accept_reads_of_ne hsemicolon).bind fun b hb => ?_
  rw [hb, if_neg Bool.false_ne_true]
  refine (attempt_reads hitem).bind fun r hr => ?_
  obtain ⟨n, rfl, hn⟩ := hr
  exact .pure ⟨n, rfl, hn⟩

/-- A row of one item. -/
theorem items_reads {item : Parse Node} {P : Node → Prop}
    (hitem : Reads d (k :: ks) item [.eof] P) (heof : k ≠ .eof) (hsemicolon : k ≠ .semicolon)
    {fuel : Nat} (hfuel : 0 < fuel) :
    Reads d (k :: ks) (items item false fuel []) [.eof] fun ns => ∃ n, ns = [n] ∧ P n := by
  obtain ⟨fuel, rfl⟩ : ∃ l, fuel = l + 1 := ⟨fuel - 1, by omega⟩
  rw [items_succ]
  refine .current fun t ht => ?_
  have hnot : ¬(k == .eof || (false && k == .rbrace)) = true := by simp [heof]
  rw [ht, if_neg hnot]
  refine (turn_reads hitem hsemicolon _).bind fun new hnew => ?_
  obtain ⟨n, rfl, hn⟩ := hnew
  refine (items_reads_of_eof item fuel [n]).mono fun ns hns => ?_
  exact ⟨n, hns, hn⟩

/-- A decision is the only statement of a source. -/
theorem root_reads (hgolf : settings.golf = false) (v : Verdict)
    (hlevels : 2 * f.depth + 1 ≤ settings.maxDepth) (hdepth : f.depth + 1 < maxTreeDepth) :
    Reads 0 (decisionTokens f v) (root settings) [.eof] fun n =>
      ∃ decision, n.kind = .block ∧ n.children = [decision] ∧ IsDecision f decision := by
  have hitem : Reads 0 (decisionTokens f v) (item settings settings.maxDepth) [.eof]
      (IsDecision f) :=
    item_reads hgolf v hlevels (by omega) hdepth
  refine .current fun start _ => .get fun s _ => ?_
  refine (items_reads hitem (by simp) (by simp) (Nat.succ_pos _)).bind fun ns hns => ?_
  obtain ⟨n, rfl, hn⟩ := hns
  refine .get fun t _ => make_reads fun id => ⟨n.withParent id, rfl, rfl, ?_⟩
  exact hn

end Decisions

end Parse

/-! ## Sources -/

section Sources

variable {e : Node} {f : Formula} {maxDepth : Nat}

/-- The state in front of significant tokens. -/
theorem stands_ofTokens {tokens : List Token} {k : TokenKind} {ks : List TokenKind} (next : NodeId)
    (h : tokens.map Token.kind = k :: ks) (hsignificant : ∀ k' ∈ k :: ks, k'.isSignificant = true) :
    (ParseState.ofTokens tokens next).Stands 0 (k :: ks) := by
  obtain ⟨t, rest, rfl, ht, -⟩ := List.map_eq_cons_iff.1 h
  have hsig : t.kind.isSignificant = true := by
    rw [ht]
    exact hsignificant k (List.mem_cons_self ..)
  have hnext : nextSignificant? (t :: rest) = some (t, rest) := by
    rw [nextSignificant?, if_pos hsig]
  rw [ParseState.ofTokens_eq hnext]
  exact ⟨h, hsignificant, rfl, rfl, rfl⟩

/-- **The text of an expression is read back.** There is no error, and the condition of the
decision that is read is equal to the expression. -/
theorem Program.parse_text (h : e.HasForm f) (hdepth : e.depth ≤ 1000)
    (hmax : 2 * e.depth + 2 ≤ maxDepth) (next : NodeId) :
    (parse {} maxDepth ("if " ++ e.text ++ " then win end") next).1.errors = [] ∧
      ∃ decision condition yes no,
        (parse {} maxDepth ("if " ++ e.text ++ " then win end") next).1.tree.children =
          [decision] ∧
        decision.kind = .decision (some condition) yes no ∧ condition.same e = true := by
  rw [h.depth_eq] at hdepth hmax
  have hlt : f.depth + 1 < maxTreeDepth :=
    Nat.lt_of_le_of_lt (Nat.succ_le_succ hdepth) (by decide)
  obtain ⟨hkinds, hsignificant, hlexical⟩ :=
    tokenize_decision h (Nat.le_of_lt (Nat.lt_of_succ_lt hlt))
  have hstands := stands_ofTokens next hkinds hsignificant
  have hread : Parse.Reads 0 (Parse.decisionTokens f .win) (Parse.root ⟨false, maxDepth⟩) [.eof]
      fun n => ∃ decision, n.kind = .block ∧ n.children = [decision] ∧
        Parse.IsDecision f decision :=
    Parse.root_reads rfl .win (by dsimp only; omega) hlt
  obtain ⟨root, t, hrun, ht, decision, -, hchildren, hdecision⟩ := hread _ hstands
  obtain ⟨⟨condition, yes, hkind, hcondition, -⟩, -⟩ := hdecision
  have hparse : parse {} maxDepth ("if " ++ e.text ++ " then win end") next =
      (⟨root, []⟩, t.nextId) := by
    rw [parse_eq hrun, hlexical, ht.errors]
    rfl
  rw [hparse]
  exact ⟨rfl, decision, condition, _, _, hchildren, hkind, hcondition.alike h⟩

/-- The negation of a comparison, whose operand asks for parentheses: `!(a == -f())`. -/
def negatedComparison : Fresh Node := do
  let call ← Node.arithmetic .neg (← Node.ruleCall "f") none
  Node.not (← Node.comparison .eq (← Node.identifier "a") call)

theorem Program.parse_text_negated :
    (parse {} 10 ("if " ++ (negatedComparison default).1.text ++ " then win end")
        default).1.errors = [] ∧
      ∃ decision condition yes no,
        (parse {} 10 ("if " ++ (negatedComparison default).1.text ++ " then win end")
          default).1.tree.children = [decision] ∧
        decision.kind = .decision (some condition) yes no ∧
        condition.same (negatedComparison default).1 = true := by
  have hform : (negatedComparison default).1.HasForm
      (.signed .not (.joined (.comparison .eq) (.identifier ⟨"a", by decide +kernel⟩)
        (.signed .minus (.ruleCall ⟨"f", by decide +kernel⟩)))) :=
    ⟨_, rfl, rfl, _, _, rfl, rfl, ⟨rfl, rfl⟩, _, rfl, rfl, rfl, rfl⟩
  exact Program.parse_text hform (by decide +kernel) (by decide +kernel) default

end Sources

end Rulebook
