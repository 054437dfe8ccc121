import Rulebook.Proofs.Node.Grove
import Rulebook.Proofs.Program.Stands

/-!
# Trees stand where their tokens were taken

The trees that a production makes stand between the stands that it leads from and to: in front of
them is what was taken before the production, and behind them what will be taken after it. So
operands that are read one after the other stand one behind the other, and the span of a node, which
ends where its last part ends, holds all of them. Identities follow the same pattern: those of a
production are issued after all earlier ones.

From which token to which a node stands is told by each production in its own way, so they are gone
through one by one here, which relations between two parses spare us elsewhere.

## Main definitions

* `Parse.Rows`, `Parse.Grows`: trees that were made between two stands

## Main results

* `Parse.make_grows`: a new node takes over what was made
* `Parse.expr_grows`, `Parse.item_grows`: productions make trees between the stands they lead from
  and to
* `Program.grown_parse`: the tree of a program stands in its span, and is sound
* `Program.nested_parse`: the spans of a program nest
-/

namespace Rulebook

variable {source : String}

namespace Parse

/-! ## Trees between two stands -/

section Trees

variable {p q r p' q' : Stand source} {ms ns : List Node} {n : Node} {t : Token}

/-- Trees that were made from one stand to another stand one behind the other in what was taken
there, and have the identities that were issued. -/
structure Rows (p : Stand source) (ns : List Node) (q : Stand source) : Prop where
  laid : Node.Laid source (p.upTo q) ns
  grove : Node.Grove p.next q.next ns

/-- A tree with a place that was made from one stand to another stands in its span, which is part
of what was taken there. -/
structure Planted (p : Stand source) (n : Node) (q : Stand source) : Prop where
  line : n.line ≠ 0
  proper : n.span.Proper source
  laid : Node.Laid source n.span [n]
  within : n.span.Within (p.upTo q)

/-- A tree was made from one stand to another, with the identities that were issued. -/
structure Grows (p : Stand source) (n : Node) (q : Stand source) : Prop where
  planted : Planted p n q
  grove : Node.Grove p.next q.next [n]

theorem Rows.nil (p q : Stand source) : Rows p [] q :=
  ⟨.nil _ _, .nil _ _⟩

theorem Rows.mono (h : Rows p ns q) (hp : p'.Before p) (hq : q.Before q') : Rows p' ns q' :=
  ⟨h.laid.mono (Stand.upTo_within hp hq), h.grove.mono hp.next hq.next⟩

/-- What was made later stands behind. -/
theorem Rows.append (hms : Rows p ms q) (hns : Rows q' ns r) (hp : p.Before q)
    (hq : q.Before q') (hr : q'.Before r) : Rows p (ms ++ ns) r := by
  refine ⟨hms.laid.append hns.laid hq.le (Stand.upTo_within (.refl p) (hq.trans hr))
    (Stand.upTo_within (hp.trans hq) (.refl r)), ?_⟩
  exact (hms.grove.mono (Nat.le_refl _) hq.next).append hns.grove (hp.trans hq).next hr.next

theorem Planted.mono (h : Planted p n q) (hp : p'.Before p) (hq : q.Before q') :
    Planted p' n q' :=
  ⟨h.line, h.proper, h.laid, h.within.trans (Stand.upTo_within hp hq)⟩

theorem Grows.mono (h : Grows p n q) (hp : p'.Before p) (hq : q.Before q') : Grows p' n q' :=
  ⟨h.planted.mono hp hq, h.grove.mono hp.next hq.next⟩

theorem Grows.rows (h : Grows p n q) : Rows p [n] q :=
  ⟨h.planted.laid.mono h.planted.within, h.grove⟩

/-- What was made later stands behind. -/
theorem Planted.le {m : Node} (hn : Planted p n q) (hm : Planted q' m r) (hq : q.Before q') :
    n.span.stop ≤ m.span.start :=
  hn.within.stop.trans (hq.le.trans hm.within.start)

/-- A new node takes over some of the trees that were made. It stands in its span, if that holds
the places of its parts. -/
theorem make_planted {a span : Span} {kind : Kind Node} {children : List Node} {line : Nat}
    {node : Fresh Node} (hpq : p.Before q)
    (hnode : ∀ id, node id = (.linked id kind children, ⟨id.number + 1⟩))
    (hlaid : Node.Laid source a (kind.operands ++ children)) (ha : a.Within span)
    (hspan : span.Proper source) (hwithin : span.Within (p.upTo q)) (hline : line ≠ 0)
    (hgrove : Node.Grove p.next q.next (kind.operands ++ children ++ ns)) :
    Leads q (make node span line) fun n r =>
      (Planted p n r ∧ n.span = span) ∧ Node.Grove p.next r.next (n :: ns) := by
  refine (make_leads hnode).mono fun n r _ => ?_
  rintro ⟨rfl, rfl⟩
  refine ⟨⟨⟨hline, hspan, hlaid.plant ha hspan _ _, hwithin⟩, rfl⟩, ?_⟩
  exact (hgrove.plant hpq.next).withSpan span line

/-- A new node takes over all trees that were made. -/
theorem make_spanned {a span : Span} {kind : Kind Node} {children : List Node} {line : Nat}
    {node : Fresh Node} (hpq : p.Before q)
    (hnode : ∀ id, node id = (.linked id kind children, ⟨id.number + 1⟩))
    (hlaid : Node.Laid source a (kind.operands ++ children)) (ha : a.Within span)
    (hspan : span.Proper source) (hwithin : span.Within (p.upTo q)) (hline : line ≠ 0)
    (hgrove : Node.Grove p.next q.next (kind.operands ++ children)) :
    Leads q (make node span line) fun n r => Grows p n r ∧ n.span = span := by
  rw [← List.append_nil (kind.operands ++ children)] at hgrove
  exact (make_planted hpq hnode hlaid ha hspan hwithin hline hgrove).mono
    fun n r _ h => ⟨⟨h.1.1, h.2⟩, h.1.2⟩

theorem make_grows {a span : Span} {kind : Kind Node} {children : List Node} {line : Nat}
    {node : Fresh Node} (hpq : p.Before q)
    (hnode : ∀ id, node id = (.linked id kind children, ⟨id.number + 1⟩))
    (hlaid : Node.Laid source a (kind.operands ++ children)) (ha : a.Within span)
    (hspan : span.Proper source) (hwithin : span.Within (p.upTo q)) (hline : line ≠ 0)
    (hgrove : Node.Grove p.next q.next (kind.operands ++ children)) :
    Leads q (make node span line) (Grows p) :=
  (make_spanned hpq hnode hlaid ha hspan hwithin hline hgrove).mono fun _ _ _ h => h.1

/-- A new leaf in the place of tokens that were taken. -/
theorem make_leaf_grows {span : Span} {kind : Kind Node} {line : Nat} {node : Fresh Node}
    (hpq : p.Before q) (hnode : ∀ id, node id = (.linked id kind [], ⟨id.number + 1⟩))
    (hleaf : kind.operands = []) (hspan : span.Proper source) (hwithin : span.Within (p.upTo q))
    (hline : line ≠ 0) : Leads q (make node span line) (Grows p) := by
  have hparts : kind.operands ++ [] = [] := by rw [hleaf, List.append_nil]
  refine make_grows hpq hnode ?_ (.refl span) hspan hwithin hline ?_
  · rw [hparts]
    exact .nil source span
  · rw [hparts]
    exact .nil p.next q.next

end Trees

/-! ## Expressions -/

section Expressions

variable {settings : ParseSettings} {operand : OperandParser} {p q : Stand source} {n : Node}
  {ns : List Node}

/-- A consequence stands in the place of the node that stands for it. -/
theorem toConsequence_planted (hpq : p.Before q) (hn : Planted p n q)
    (hgrove : Node.Grove p.next q.next (n :: ns)) :
    Leads q (toConsequence settings n) fun m r =>
      (Planted p m r ∧ m.span = n.span) ∧ Node.Grove p.next r.next (m :: ns) := by
  have leaf {name : String} {kind : ConsequenceKind} :
      Leads q (make (Node.consequence name kind) n.span n.line) fun m r =>
        (Planted p m r ∧ m.span = n.span) ∧ Node.Grove p.next r.next (m :: ns) :=
    make_planted hpq (fun _ => rfl) (.nil source n.span) (.refl _) hn.proper hn.within hn.line
      (hgrove.subperm (List.sublist_cons_self n ns).subperm)
  rw [toConsequence]
  split
  · split
    · exact leaf
    · exact leaf
  · exact leaf
  · exact .pure ⟨⟨hn, rfl⟩, hgrove⟩

theorem chainHead_planted (hpq : p.Before q) (hn : Planted p n q)
    (hgrove : Node.Grove p.next q.next (n :: ns)) (context : ReadContext) :
    Leads q (chainHead settings n context) fun m r =>
      (Planted p m r ∧ m.span = n.span) ∧ Node.Grove p.next r.next (m :: ns) := by
  rw [chainHead]
  split
  · exact .ite (.pure ⟨⟨hn, rfl⟩, hgrove⟩) (toConsequence_planted hpq hn hgrove)
  · exact toConsequence_planted hpq hn hgrove

theorem toConsequence_grows (hpq : p.Before q) (hn : Grows p n q) :
    Leads q (toConsequence settings n) (Grows p) :=
  (toConsequence_planted hpq hn.planted hn.grove).mono fun _ _ _ h => ⟨h.1.1, h.2⟩

/-- A verdict stands where its keyword was taken, with its weight if it has one. -/
theorem verdict_grows {t : Token} (hpq : p.Before q) (ht : Took p t q) (v : Verdict) :
    Leads q (verdict v t.span t.line) (Grows p) := by
  rw [ht.span]
  refine accept_leads.bind fun _ q1 h1 _ => .ite (current_leads fun _ _ _ => ?_) ?_
  · split
    · refine advance_leads.bind fun _ q2 h2 _ => expect_leads.bind fun close q3 h3 hclose => ?_
      have hp2 := (hpq.trans h1).trans h2
      rw [hclose.span]
      exact make_leaf_grows (hp2.trans h3) (fun _ => rfl) rfl
        (p.proper_ahead.merge q2.proper_ahead) (hclose.merge_within hp2 (.refl q3)) ht.line
    · exact failHere_leads
  · exact make_leaf_grows (hpq.trans h1) (fun _ => rfl) rfl p.proper_ahead (ht.within h1) ht.line

variable (hop : ∀ strength context (p : Stand source),
  Leads p (operand strength context) (Grows p))
include hop

theorem consequence_grows : Leads p (consequence settings operand) (Grows p) :=
  (hop _ _ p).bind fun _ _ hpq hn => toConsequence_grows hpq hn

theorem named_grows (name : String) {line : Nat} (hline : line ≠ 0) :
    Leads p (named operand name p.ahead line) (Grows p) := by
  refine .get fun s _ => ?_
  split
  · refine advance_leads.bind fun t q1 h1 ht => advance_leads.bind fun _ q2 h2 _ => ?_
    refine expect_leads.bind fun close q3 h3 hclose => ?_
    have hp2 := h1.trans h2
    rw [hclose.span]
    exact make_leaf_grows (hp2.trans h3) (fun _ => rfl) rfl
      (p.proper_ahead.merge q2.proper_ahead) (hclose.merge_within hp2 (.refl q3)) hline
  · refine advance_leads.bind fun t q1 h1 ht => advance_leads.bind fun _ q2 h2 _ => ?_
    refine (hop _ _ q2).bind fun value q3 h3 hvalue => ?_
    have hvalue := hvalue.mono (h1.trans h2) (.refl q3)
    exact make_grows ((h1.trans h2).trans h3) (fun _ => rfl) hvalue.planted.laid
      (Span.within_merge_right _ _) (p.proper_ahead.merge hvalue.planted.proper)
      ((ht.within (h2.trans h3)).merge hvalue.planted.within) hline hvalue.grove
  · refine advance_leads.bind fun t q1 h1 ht => ?_
    exact make_leaf_grows h1 (fun _ => rfl) rfl p.proper_ahead (ht.within (.refl _)) hline

/-- A decision stands from the token that it began with up to the one that closes it. -/
theorem decisionTail_grows {condition : Node} {start : Token} (hpq : p.Before q)
    (hspan : start.span = p.ahead) (hline : start.line ≠ 0) (hc : Grows p condition q) :
    Leads q (decisionTail settings operand condition start) (Grows p) := by
  refine (consequence_grows hop).bind fun yes q1 h1 hyes => ?_
  have hrows : Rows p [condition, yes] q1 := hc.rows.append hyes.rows hpq (.refl q) h1
  have close {no : Option Node} {q2 : Stand source} (h2 : p.Before q2)
      (hrows : Rows p ((Kind.decision (some condition) (some yes) no).operands ++ []) q2) :
      Leads q2 (expect .kwEnd "'end' to close decision" >>= fun close =>
        make (Node.decision condition (some yes) no) (start.span.merge close.span) start.line)
        (Grows p) := by
    refine expect_leads.bind fun close q3 h3 hclose => ?_
    rw [hspan, hclose.span]
    exact make_grows (h2.trans h3) (fun _ => rfl) hrows.laid (Stand.upTo_within_merge p q2)
      (p.proper_ahead.merge q2.proper_ahead) (hclose.merge_within h2 (.refl q3)) hline
      (hrows.grove.mono (Nat.le_refl _) h3.next)
  refine accept_leads.bind fun _ q2 h2 _ => .ite ?_ ?_
  · refine (consequence_grows hop).bind fun no q3 h3 hno => ?_
    refine (Leads.pure (P := fun m r => m = some no ∧ r = q3) ⟨rfl, rfl⟩).bind ?_
    rintro _ _ - ⟨rfl, rfl⟩
    exact close (((hpq.trans h1).trans h2).trans h3)
      (hrows.append hno.rows (hpq.trans h1) h2 h3)
  · refine (Leads.pure (P := fun m r => m = none ∧ r = q2) ⟨rfl, rfl⟩).bind ?_
    rintro _ _ - ⟨rfl, rfl⟩
    exact close ((hpq.trans h1).trans h2) (hrows.mono (.refl p) h2)

theorem ifDecision_grows : Leads p (ifDecision settings operand) (Grows p) := by
  refine advance_leads.bind fun start q1 h1 hstart => (hop _ _ q1).bind fun condition q2 h2 hc => ?_
  refine expect_leads.bind fun _ q3 h3 _ => ?_
  exact decisionTail_grows hop ((h1.trans h2).trans h3) hstart.span hstart.line (hc.mono h1 h3)

theorem whenDecision_grows : Leads p (whenDecision settings operand) (Grows p) := by
  refine advance_leads.bind fun start q1 h1 hstart => (hop _ _ q1).bind fun condition q2 h2 hc => ?_
  have body {q3 : Stand source} (h3 : q2.Before q3) :
      Leads q3 (consequence settings operand >>= fun body =>
        make (Node.decision condition (some body) none) (start.span.merge body.span) start.line)
        (Grows p) := by
    refine (consequence_grows hop).bind fun body q4 h4 hbody => ?_
    have hp3 := (h1.trans h2).trans h3
    have hrows := hc.rows.append hbody.rows h2 h3 h4
    have hle : condition.span.stop ≤ body.span.start := hc.planted.le hbody.planted h3
    have hcondition : condition.span.Within (p.ahead.merge body.span) :=
      .between (h1.start.trans hc.planted.within.start) (hle.trans hbody.planted.proper.le)
    rw [hstart.span]
    exact make_grows (hp3.trans h4) (fun _ => rfl)
      (hc.planted.laid.append hbody.planted.laid hle hcondition (Span.within_merge_right _ _))
      (.refl _) (p.proper_ahead.merge hbody.planted.proper)
      ((hstart.within ((h2.trans h3).trans h4)).merge (hbody.planted.mono hp3 (.refl q4)).within)
      hstart.line (hrows.mono h1 (.refl q4)).grove
  refine accept_leads.bind fun _ q3 h3 _ => .ite (body h3) ?_
  refine accept_leads.bind fun _ q4 h4 _ => .ite (body (h3.trans h4)) ?_
  exact Leads.bind (P := fun _ _ => True) failHere_leads fun _ _ h5 _ =>
    body ((h3.trans h4).trans h5)

theorem quantified_rows (fuel : Nat) {done : List Node} (hpq : p.Before q)
    (hdone : Rows p done.reverse q) : Leads q (quantified operand fuel done) (Rows p) := by
  induction fuel generalizing done q with
  | zero => exact .pure hdone
  | succ fuel ih =>
    refine (hop _ _ q).bind fun n q1 h1 hn => ?_
    have hmore : Rows p (n :: done).reverse q1 := by
      rw [List.reverse_cons]
      exact hdone.append hn.rows hpq (.refl q) h1
    refine accept_leads.bind fun _ q2 h2 _ => ?_
    exact .ite (ih ((hpq.trans h1).trans h2) (hmore.mono (.refl p) h2))
      (.pure (hmore.mono (.refl p) h2))

omit hop in
/-- Nodes that are joined stand where they stood. -/
theorem joinAll_leads (op : LogicOp) {a : Span} {first : Nat} {left : Node}
    (hlaid : Node.Laid source a (left :: ns)) (hgrove : Node.Grove first q.next (left :: ns))
    (hfirst : first ≤ q.next) :
    Leads q (joinAll op left ns) fun n r =>
      Node.Laid source a [n] ∧ Node.Grove first r.next [n] := by
  induction ns generalizing left q with
  | nil => exact .pure ⟨hlaid, hgrove⟩
  | cons right rest ih =>
    refine Leads.bind (make_leads fun _ => rfl) fun n r h => ?_
    rintro ⟨rfl, rfl⟩
    have hjoined : Node.Laid source a
        (.linked ⟨q.next⟩ (.logic op (some left) (some right)) [] :: rest) := hlaid.join _
    have hplanted : Node.Grove first (q.next + 1)
        (.linked ⟨q.next⟩ (.logic op (some left) (some right)) [] :: rest) := hgrove.plant hfirst
    exact ih hjoined hplanted (hfirst.trans h.next)

/-- Operands up to a closing parenthesis, of which there may be none, and what is made of them. -/
theorem operands_leads {P : Node → Stand source → Prop} {f : List Node → Parse Node}
    (hf : ∀ operands q, p.Before q → Rows p operands q → Leads q (f operands) P) :
    Leads p (isAt .rparen >>= fun closed =>
      if closed then pure [] >>= f
      else MonadState.get >>= fun s => quantified operand s.remaining [] >>= f) P := by
  refine isAt_leads.bind fun _ q h hq => ?_
  subst hq
  exact .ite (hf [] q h (.nil _ _))
    (.get fun _ _ => (quantified_rows hop _ h (.nil _ _)).bind hf)

theorem quantifier_grows (op : LogicOp) : Leads p (quantifier operand op) (Grows p) := by
  refine advance_leads.bind fun start q1 h1 hstart => expect_leads.bind fun _ q2 h2 _ => ?_
  refine operands_leads hop fun operands q3 h3 ho => expect_leads.bind fun close q4 h4 hclose => ?_
  refine checkHeight_leads.bind fun _ q5 h5 _ => ?_
  have hp3 := (h1.trans h2).trans h3
  have hp5 := (hp3.trans h4).trans h5
  -- The span goes from the quantifier to the parenthesis that closes it, and holds the operands.
  have hspan : (start.span.merge close.span).Proper source := by
    rw [hstart.span, hclose.span]
    exact p.proper_ahead.merge q3.proper_ahead
  have hwithin : (start.span.merge close.span).Within (p.upTo q5) := by
    rw [hstart.span, hclose.span]
    exact hclose.merge_within hp3 h5
  have hoperands : (q2.upTo q3).Within (start.span.merge close.span) := by
    rw [hstart.span, hclose.span]
    exact (Stand.upTo_within (h1.trans h2) (.refl q3)).trans (Stand.upTo_within_merge p q3)
  cases operands with
  | nil => exact make_leaf_grows hp5 (fun _ => rfl) rfl hspan hwithin hstart.line
  | cons first rest =>
    refine (joinAll_leads op ho.laid (ho.grove.mono (h1.trans h2).next (h4.trans h5).next)
      hp5.next).bind fun n q6 h6 hn => .pure ⟨⟨hstart.line, hspan, ?_, ?_⟩, ?_⟩
    · exact hn.1.withSpan hoperands hspan _
    · exact hwithin.trans (Stand.upTo_within (.refl p) h6)
    · exact hn.2.withSpan _ _

omit hop in
theorem constant_grows (l : Literal) {t : Token} (hspan : t.span = p.ahead) (hline : t.line ≠ 0) :
    Leads p (constant l t) (Grows p) := by
  refine advance_leads.bind fun _ q1 h1 ht => ?_
  rw [hspan]
  exact make_leaf_grows h1 (fun _ => rfl) rfl p.proper_ahead (ht.within (.refl _)) hline

/-- An operator in front of its operand. -/
theorem prefix_grows {node : Node → Fresh Node} (kind : Node → Kind Node)
    (hnode : ∀ n id, node n id = (.linked id (kind n) [], ⟨id.number + 1⟩))
    (hkind : ∀ n, (kind n).operands = [n]) {t : Token} (hspan : t.span = p.ahead)
    (hline : t.line ≠ 0) (context : ReadContext) :
    Leads p (advance >>= fun _ => operand Strength.unary context >>= fun n =>
      make (node n) (t.span.merge n.span) t.line) (Grows p) := by
  refine advance_leads.bind fun _ q1 h1 ht => (hop _ _ q1).bind fun n q2 h2 hn => ?_
  have hparts : (kind n).operands ++ [] = [n] := by rw [hkind, List.append_nil]
  have hn := hn.mono h1 (.refl q2)
  rw [hspan]
  exact make_grows (h1.trans h2) (hnode n) (hparts ▸ hn.planted.laid)
    (Span.within_merge_right _ _) (p.proper_ahead.merge hn.planted.proper)
    ((ht.within h2).merge hn.planted.within) hline (hparts ▸ hn.grove)

theorem primary_grows (context : ReadContext) :
    Leads p (primary settings operand context) (Grows p) := by
  refine current_leads fun t hspan hline => ?_
  dsimp only
  split
  · exact constant_grows _ hspan hline
  · exact constant_grows _ hspan hline
  · exact constant_grows _ hspan hline
  · exact constant_grows _ hspan hline
  · exact constant_grows _ hspan hline
  · exact constant_grows _ hspan hline
  · next name _ =>
    have hnamed := named_grows (p := p) hop name hline
    rwa [← hspan] at hnamed
  · refine advance_leads.bind fun _ q1 h1 ht => ?_
    exact verdict_grows (t := t) h1 ⟨hspan, hline, ht.stop⟩ _
  · exact prefix_grows hop (fun n => .logic .not (some n) none) (fun _ _ => rfl) (fun _ => rfl)
      hspan hline context
  · exact prefix_grows hop (fun n => .arithmetic .neg (some n) none) (fun _ _ => rfl)
      (fun _ => rfl) hspan hline context
  · refine advance_leads.bind fun _ q1 h1 _ => (hop _ _ q1).bind fun n q2 h2 hn => ?_
    exact expect_leads.bind fun _ q3 h3 _ => .pure (hn.mono h1 h3)
  · exact quantifier_grows hop _
  · exact quantifier_grows hop _
  · exact ifDecision_grows hop
  · exact whenDecision_grows hop
  · exact failHere_leads

omit hop in
/-- Two trees, one behind the other, become the operands of a node. -/
theorem infix_grows {left right : Node} {node : Fresh Node} {kind : Kind Node} {line : Nat}
    (hpq : p.Before q) (hnode : ∀ id, node id = (.linked id kind [], ⟨id.number + 1⟩))
    (hkind : kind.operands = [left, right]) (hleft : Planted p left q) (hright : Planted p right q)
    (hle : left.span.stop ≤ right.span.start)
    (hgrove : Node.Grove p.next q.next [left, right]) (hline : line ≠ 0) :
    Leads q (make node (left.span.merge right.span) line) (Grows p) := by
  have hparts : kind.operands ++ [] = [left, right] := by rw [hkind, List.append_nil]
  have hlaid : Node.Laid source (left.span.merge right.span) [left, right] :=
    hleft.laid.append hright.laid hle (Span.within_merge_left _ _) (Span.within_merge_right _ _)
  exact make_grows hpq hnode (hparts ▸ hlaid) (.refl _) (hleft.proper.merge hright.proper)
    (hleft.within.merge hright.within) hline (hparts ▸ hgrove)

omit hop in
/-- A decision between two parts behind its condition. -/
theorem choice_grows {left yes no : Node} {line : Nat} (hpq : p.Before q)
    (hleft : Planted p left q) (hyes : Planted p yes q) (hno : Planted p no q)
    (hle : left.span.stop ≤ yes.span.start) (hle' : yes.span.stop ≤ no.span.start)
    (hgrove : Node.Grove p.next q.next [left, yes, no]) (hline : line ≠ 0) :
    Leads q (make (Node.decision left (some yes) (some no)) (left.span.merge no.span) line)
      (Grows p) := by
  have hbehind : Node.Laid source (yes.span.merge no.span) [yes, no] :=
    hyes.laid.append hno.laid hle' (Span.within_merge_left _ _) (Span.within_merge_right _ _)
  have hle'' : left.span.stop ≤ (yes.span.merge no.span).start :=
    Nat.le_min.2 ⟨hle, hle.trans (hyes.proper.le.trans hle')⟩
  have hyes' : yes.span.Within (left.span.merge no.span) :=
    .between (hleft.proper.le.trans hle) (hle'.trans hno.proper.le)
  have hlaid : Node.Laid source (left.span.merge no.span) [left, yes, no] :=
    hleft.laid.append hbehind hle'' (Span.within_merge_left _ _)
      (hyes'.merge (Span.within_merge_right _ _))
  exact make_grows hpq (fun _ => rfl) hlaid (.refl _) (hleft.proper.merge hno.proper)
    (hleft.within.merge hno.within) hline hgrove

theorem operation_grows (joint : Joint) {left : Node} (hpq : p.Before q) (hleft : Grows p left q)
    (context : ReadContext) :
    Leads q (operation settings operand joint left context) (Grows p) := by
  refine advance_leads.bind fun _ q1 h1 _ => ?_
  -- What is made of a first and a second operand.
  have two {node : Fresh Node} {kind : Kind Node} {right : Node} {q2 : Stand source}
      (h2 : q1.Before q2) (hright : Grows q1 right q2)
      (hnode : ∀ id, node id = (.linked id kind [], ⟨id.number + 1⟩))
      (hkind : kind.operands = [left, right]) :
      Leads q2 (make node (left.span.merge right.span) left.line) (Grows p) :=
    infix_grows ((hpq.trans h1).trans h2) hnode hkind (hleft.planted.mono (.refl p) (h1.trans h2))
      (hright.planted.mono (hpq.trans h1) (.refl q2)) (hleft.planted.le hright.planted h1)
      (hleft.rows.append hright.rows hpq h1 h2).grove hleft.planted.line
  cases joint with
  | chain order =>
    refine (hop _ _ q1).bind fun right q2 h2 hright => ?_
    refine (toConsequence_grows h2 hright).bind fun right q3 h3 hright => ?_
    have hq3 := h2.trans h3
    have hp3 := (hpq.trans h1).trans hq3
    -- The first part may become a consequence, when the second one has been read.
    refine (chainHead_planted hp3 (hleft.planted.mono (.refl p) (h1.trans hq3))
      (hleft.rows.append hright.rows hpq h1 hq3).grove context).bind fun first q4 h4 hfirst => ?_
    obtain ⟨⟨hfirst, hspan⟩, hgrove⟩ := hfirst
    refine infix_grows (hp3.trans h4) (fun _ => rfl) rfl hfirst
      (hright.planted.mono (hpq.trans h1) h4) ?_ hgrove hleft.planted.line
    rw [hspan]
    exact hleft.planted.le hright.planted h1
  | choice =>
    refine (consequence_grows hop).bind fun yes q2 h2 hyes => expect_leads.bind fun _ q3 h3 _ => ?_
    refine (hop _ _ q3).bind fun no q4 h4 hno => ?_
    refine (toConsequence_grows h4 hno).bind fun no q5 h5 hno => ?_
    have hq5 := h4.trans h5
    have hp2 := (hpq.trans h1).trans h2
    have hrows := hyes.rows.append hno.rows h2 h3 hq5
    exact choice_grows ((hp2.trans h3).trans hq5)
      (hleft.planted.mono (.refl p) ((h1.trans h2).trans (h3.trans hq5)))
      (hyes.planted.mono (hpq.trans h1) (h3.trans hq5))
      (hno.planted.mono (hp2.trans h3) (.refl q5)) (hleft.planted.le hyes.planted h1)
      (hyes.planted.le hno.planted h3)
      (hleft.rows.append hrows hpq h1 (h2.trans (h3.trans hq5))).grove hleft.planted.line
  | arm =>
    refine (hop _ _ q1).bind fun body q2 h2 hbody => ?_
    refine (toConsequence_grows h2 hbody).bind fun body q3 h3 hbody => ?_
    exact two (h2.trans h3) hbody (fun _ => rfl) rfl
  | logic op => exact (hop _ _ q1).bind fun right q2 h2 hright => two h2 hright (fun _ => rfl) rfl
  | comparison op =>
    exact (hop _ _ q1).bind fun right q2 h2 hright => two h2 hright (fun _ => rfl) rfl
  | arithmetic op =>
    exact (hop _ _ q1).bind fun right q2 h2 hright => two h2 hright (fun _ => rfl) rfl

theorem operations_grows (strength : Nat) (context : ReadContext) (fuel : Nat) {left : Node}
    (hpq : p.Before q) (hleft : Grows p left q) (height : Nat) :
    Leads q (operations settings operand strength context fuel left height) (Grows p) := by
  induction fuel generalizing left height q with
  | zero => exact .pure hleft
  | succ fuel ih =>
    refine current_leads fun t _ _ => ?_
    split
    · exact .pure hleft
    · next joint _ =>
      refine .ite (.pure hleft) ?_
      refine (operation_grows hop joint hpq hleft context).bind fun n q1 h1 hn => ?_
      exact checkHeight_leads.bind fun _ q2 h2 _ =>
        ih ((hpq.trans h1).trans h2) (hn.mono (.refl p) h2) _

theorem exprWith_grows (strength : Nat) (context : ReadContext) :
    Leads p (exprWith settings operand strength context) (Grows p) := by
  refine (primary_grows hop context).bind fun left q1 h1 hleft => ?_
  refine checkHeight_leads.bind fun _ q2 h2 _ => .get fun s _ => ?_
  exact operations_grows hop strength context _ (h1.trans h2) (hleft.mono (.refl p) h2) _

omit hop in
/-- The tree of an expression stands between the stands before and behind it. -/
theorem expr_grows (levels strength : Nat) (context : ReadContext) (p : Stand source) :
    Leads p (expr settings levels strength context) (Grows p) := by
  induction levels generalizing strength context p with
  | zero => exact .throw _
  | succ levels ih => exact nested_leads (exprWith_grows ih strength context)

end Expressions

/-! ## Items -/

section Items

variable {settings : ParseSettings} {p q : Stand source}

theorem synchronize_leads (insideRule : Bool) (fuel : Nat) :
    Leads p (synchronize insideRule fuel) fun _ _ => True := by
  induction fuel generalizing p with
  | zero => exact .pure trivial
  | succ fuel ih =>
    refine current_leads fun t _ _ => ?_
    have step : Leads p (advance >>= fun _ => pure ()) fun _ _ => True :=
      advance_leads.bind fun _ _ _ _ => .pure trivial
    split
    · exact .pure trivial
    · exact .pure trivial
    · exact .pure trivial
    · exact .pure trivial
    · exact step
    · exact step
    · exact .ite step (.pure trivial)
    · exact advance_leads.bind fun _ _ _ _ => ih

theorem recover_leads (e : Error) (mark : Nat) (insideRule : Bool) :
    Leads p (recover e mark insideRule) fun _ _ => True := by
  refine report_leads.bind fun _ _ _ _ => current_leads fun t _ _ => ?_
  have pass {q : Stand source} :
      Leads q (MonadState.get >>= fun s => synchronize insideRule s.remaining) fun _ _ => True :=
    .get fun s _ => synchronize_leads insideRule _
  exact .ite (advance_leads.bind fun _ _ _ _ => pass) pass

/-- The trees of a row of items stand one behind the other. An item that failed leaves none. -/
theorem items_rows {item : Parse Node} (hitem : ∀ p : Stand source, Leads p item (Grows p))
    (insideRule : Bool) (fuel : Nat) {done : List Node} (hpq : p.Before q)
    (hdone : Rows p done.reverse q) : Leads q (items item insideRule fuel done) (Rows p) := by
  induction fuel generalizing done q with
  | zero => exact .pure hdone
  | succ fuel ih =>
    refine current_leads fun t _ _ => .ite (.pure hdone) ?_
    refine accept_leads.bind fun _ q1 h1 _ => ?_
    have hdone := hdone.mono (.refl p) h1
    refine .ite (ih (hpq.trans h1) hdone) ?_
    refine (attempt_leads (hitem q1)).bind fun result q2 h2 hr => ?_
    cases result with
    | ok n =>
      refine ih ((hpq.trans h1).trans h2) ?_
      rw [List.reverse_cons]
      exact hdone.append (hr n rfl).rows (hpq.trans h1) (.refl q1) h2
    | error e =>
      refine (recover_leads e _ insideRule).bind fun _ q3 h3 _ => ?_
      exact ih (((hpq.trans h1).trans h2).trans h3) (hdone.mono (.refl p) (h2.trans h3))

theorem statement_grows {operand : OperandParser}
    (hop : ∀ strength context (p : Stand source), Leads p (operand strength context) (Grows p)) :
    Leads p (statement settings operand) (Grows p) := by
  refine current_leads fun start hspan hline => (hop _ _ p).bind fun n q1 h1 hn => ?_
  refine accept_leads.bind fun _ q2 h2 _ => ?_
  have hn := hn.mono (.refl p) h2
  refine .ite ?_ (toConsequence_grows (h1.trans h2) hn)
  refine (decisionTail_grows hop (h1.trans h2) hspan hline hn).bind fun decision q3 h3 hd => ?_
  exact checkHeight_leads.bind fun _ q4 h4 _ => .pure (hd.mono (.refl p) h4)

theorem rule_grows {item : Parse Node} (hitem : ∀ p : Stand source, Leads p item (Grows p)) :
    Leads p (rule item) (Grows p) := by
  refine advance_leads.bind fun start q1 h1 hstart => expectName_leads.bind fun name q2 h2 _ => ?_
  refine expect_leads.bind fun brace q3 h3 hbrace => ?_
  have hnone : Rows q3 ([] : List Node).reverse q3 := .nil q3 q3
  refine (inRule_leads (.get fun s _ => items_rows hitem true _ (.refl q3) hnone)).bind
    fun statements q4 h4 hs => ?_
  refine expect_leads.bind fun close q5 h5 hclose => ?_
  have hs : Rows q3 ((Kind.block : Kind Node).operands ++ statements) q4 := hs
  rw [hstart.span, hbrace.span, hclose.span]
  have hq4 := h3.trans h4
  have hq5 := hq4.trans h5
  have hp2 := h1.trans h2
  -- The block goes from brace to brace, and the rule from its keyword to the brace that closes it.
  have hstatements : (q3.upTo q4).Within (q2.ahead.merge q4.ahead) :=
    (Stand.upTo_within h3 (.refl q4)).trans (Stand.upTo_within_merge q2 q4)
  refine (make_spanned hq5 (fun _ => rfl) hs.laid hstatements
    (q2.proper_ahead.merge q4.proper_ahead) (hclose.merge_within hq4 (.refl q5)) hstart.line
    (hs.grove.mono h3.next h5.next)).bind fun body q6 h6 hbody => ?_
  obtain ⟨hbody, hspan⟩ := hbody
  have hblock : body.span.Within (p.ahead.merge q4.ahead) := by
    rw [hspan]
    exact (hp2.within_merge hq4).merge (Span.within_merge_right _ _)
  refine (make_grows (hp2.trans (hq5.trans h6)) (fun _ => rfl) hbody.planted.laid hblock
    (p.proper_ahead.merge q4.proper_ahead) (hclose.merge_within (hp2.trans hq4) h6) hstart.line
    (hbody.mono hp2 (.refl q6)).grove).bind fun n q7 h7 hn => ?_
  exact checkHeight_leads.bind fun _ q8 h8 _ => .pure (hn.mono (.refl p) h8)

/-- The tree of an item stands between the stands before and behind it. -/
theorem item_grows (levels : Nat) (p : Stand source) :
    Leads p (item settings levels) (Grows p) := by
  induction levels generalizing p with
  | zero => exact statement_grows fun s c => expr_grows 0 s c
  | succ levels ih =>
    refine isAt_leads.bind fun _ q _ hq => ?_
    subst hq
    refine .ite (nested_leads (rule_grows ih)) ?_
    exact statement_grows fun s c => expr_grows (levels + 1) s c

/-- The trees of all items become the children of a root, whose span holds them. -/
theorem root_leads : Leads p (root settings) fun n q =>
    Node.Laid source n.span [n] ∧ Node.Grove p.next q.next [n] := by
  refine current_leads fun start hspan _ => .get fun s _ => ?_
  have hnone : Rows p ([] : List Node).reverse p := .nil p p
  refine (items_rows (item_grows _) false _ (.refl p) hnone).bind fun statements q hpq hs => ?_
  have hs : Rows p ((Kind.block : Kind Node).operands ++ statements) q := hs
  refine .get fun t ht => (make_leads fun _ => rfl).mono fun n r _ => ?_
  rintro ⟨rfl, rfl⟩
  rw [hspan, ht.behind]
  refine ⟨hs.laid.plant ?_ (p.proper_ahead.merge q.proper_behind) _ _, ?_⟩
  · exact .between (Nat.le_refl _) (Nat.le_refl _)
  · have hgrove := hs.grove
    rw [← List.append_nil (_ ++ statements)] at hgrove
    exact (hgrove.plant hpq.next).withSpan _ _

end Items

end Parse

/-! ## Programs -/

namespace Program

variable (scan : ScanSettings) (maxDepth : Nat) (source : String) (next : NodeId)

/-- The tree of a program stands in its span, and has the identities that were issued for it. -/
theorem grown_parse :
    Node.Laid source (parse scan maxDepth source next).1.tree.span
        [(parse scan maxDepth source next).1.tree] ∧
      Node.Grove next.number (parse scan maxDepth source next).2.number
        [(parse scan maxDepth source next).1.tree] := by
  obtain ⟨p, hp, hat⟩ := exists_at_ofTokens scan source next
  have hleads : Parse.Leads p (Parse.root ⟨scan.golf, maxDepth⟩) fun n q =>
      Node.Laid source n.span [n] ∧ Node.Grove p.next q.next [n] := Parse.root_leads
  have harrives := hleads _ hat
  obtain ⟨root, s, hrun, -⟩ := exists_root scan maxDepth source next
  rw [hrun] at harrives
  rw [parse_eq hrun, ← hp]
  cases harrives with
  | ok ht hpq h => exact ht.next ▸ h

/-- **The spans of a program nest.** Whatever the source, the span of a node of the tree that was
read from it begins and ends between characters of the source, and is not turned around. It is
inside the spans of all nodes above it, and it ends before any later sibling begins. Nodes that only
join the operands of a quantifier have no place of their own; but what stands below them is inside
the spans of all nodes above them. -/
theorem nested_parse :
    let tree : Node := (parse scan maxDepth source next).1.tree
    (∀ n ∈ tree.nodes, n.line ≠ 0 →
      n.span.start ≤ n.span.stop ∧ n.span.stop ≤ source.utf8ByteSize ∧
        String.Pos.Raw.IsValid source ⟨n.span.start⟩ ∧
          String.Pos.Raw.IsValid source ⟨n.span.stop⟩) ∧
      (∀ n ∈ tree.nodes, ∀ m ∈ n.nodes, n.line ≠ 0 → m.line ≠ 0 →
        n.span.start ≤ m.span.start ∧ m.span.stop ≤ n.span.stop) ∧
      ∀ n ∈ tree.nodes, n.childNodes.Pairwise fun c d =>
        c.line ≠ 0 → d.line ≠ 0 → c.span.stop ≤ d.span.start := by
  intro tree
  have hnested := (grown_parse scan maxDepth source next).1.nested tree (List.mem_singleton_self _)
  refine ⟨fun n hn hline => ?_, fun n hn m hm hline hline' => ?_, fun n hn => ?_⟩
  · have hproper := (hnested n hn).proper hline
    exact ⟨hproper.le, hproper.stop_le, hproper.start, hproper.stop⟩
  · have hwithin := (hnested n hn).below hline m hm hline'
    exact ⟨hwithin.start, hwithin.stop⟩
  · exact (hnested n hn).ordered.imp fun hcd => hcd.le

end Program

end Rulebook
