import Rulebook.Proofs.Program.Consumption
import Rulebook.Proofs.Program.Layers
import Rulebook.Proofs.Program.Outlasting
import Rulebook.Proofs.Program.Reading

/-!
# The table of strengths stands for the grammar

A loop reads expressions by a table of strengths; the grammar has one production for each level.
Both read the same, unless the loop hits a limit on depth.

The reason is what stands behind an operand. What was read at a strength is not followed by an
operator that binds as tightly, so once the loop has taken an operator it goes on as the row of
that operator's level does, and comes to the levels below when the row is done. Operators of
decisions hold another decision on their right, so that behind them the loop has done with their
level as well.

## Main definitions

* `Token.Closes`: a token is no operator that binds as tightly as asked
* `Parse.rowAt`, `Parse.rowsFrom`: what the grammar has behind the first operand at some levels
* `Parse.Operands`: operands are read alike by strengths and by levels

## Main results

* `Parse.lowest_eq`: a production is an operand, and what is behind it at all levels from its own
* `Parse.operation_outlasts`, `Parse.operations_outlasts`: operators are taken at their own levels
* `Parse.run_layered`: by levels an expression is read as it is by strengths
-/

namespace Rulebook

/-! ## Operators -/

/-- A token is no operator that binds at least as tightly as asked. -/
def Token.Closes (strength : Nat) (t : Token) : Prop :=
  ∀ j, Joint.ofToken? t.kind = some j → j.strength < strength

namespace Parse

open Layer

/-- The nodes that an operator makes, if it only joins two operands. -/
def build? : Joint → Option Build
  | .logic op => some (Node.logic op)
  | .comparison op => some (Node.comparison op)
  | .arithmetic op => some fun l r => Node.arithmetic op l (some r)
  | _ => none

/-- The operators of the levels above that of decisions. -/
def level? : Nat → TokenKind → Option Build
  | 4 => disjunction?
  | 5 => conjunction?
  | 6 => equality?
  | 7 => comparison?
  | 8 => term?
  | 9 => factor?
  | _ => fun _ => none

/-- The operators of a level are those that have its strength. -/
theorem level?_eq {k : Nat} (hchain : k ≠ Strength.chain) (hternary : k ≠ Strength.ternary)
    (kind : TokenKind) : level? k kind =
      (Joint.ofToken? kind).bind fun j => if j.strength = k then build? j else none := by
  match k with
  | 2 => exact absurd rfl hchain
  | 3 => exact absurd rfl hternary
  | 0 | 1 | 4 | 5 | 6 | 7 | 8 | 9 => cases kind <;> rfl
  | k + 10 =>
    -- No operator is so strong.
    refine (Option.bind_eq_none_iff.2 fun j hj => if_neg ?_).symm
    exact ((j.strength_lt_unary hj).trans_le (Nat.le_add_left _ _)).ne

theorem chain?_eq_some {kind : TokenKind} {order : ChainOrder} :
    chain? kind = some order ↔ Joint.ofToken? kind = some (.chain order) := by
  cases kind <;> cases order <;> simp [chain?, Joint.ofToken?]

theorem ofToken?_eq_choice {kind : TokenKind} :
    Joint.ofToken? kind = some .choice ↔ kind = .question := by
  cases kind <;> simp [Joint.ofToken?]

theorem ofToken?_eq_arm {kind : TokenKind} :
    Joint.ofToken? kind = some .arm ↔ kind = .elvis ∨ kind = .fatArrow := by
  cases kind <;> simp [Joint.ofToken?]

/-- An operator between two expressions is one of chains or decisions, or only joins operands. -/
theorem exists_build_or {kind : TokenKind} {j : Joint} (h : Joint.ofToken? kind = some j) :
    (∃ order, j = .chain order) ∨ j = .choice ∨ j = .arm ∨
      Strength.ternary < j.strength ∧ ∃ build, build? j = some build := by
  unfold Joint.ofToken? at h
  split at h <;> cases h <;> simp [build?, Joint.strength, Strength.ternary] <;> decide

/-! ## Rows -/

section Rows

variable (settings : ParseSettings) (operand : OperandParser) (context : ReadContext)

/-- What is behind the first operand at a level, up to operators that bind less tightly. -/
def rowAt (k fuel : Nat) (left : Node) : Parse Node :=
  if k = Strength.chain then chainRow settings operand context fuel left
  else if k = Strength.ternary then ternaryRest settings operand left
  else row (level? k) (lowest settings operand context (k + 1)) fuel left

/-- What is behind the first operand at some levels, from the given one up. -/
def rowsFrom (k : Nat) : Nat → Node → Parse Node
  | 0, left => return left
  | count + 1, left => do
    let n ← rowAt settings operand context (k + count) (← get).remaining left
    rowsFrom k count n

theorem row_none (next : Parse Node) (fuel : Nat) (left : Node) :
    row (fun _ => none) next fuel left = pure left := by
  cases fuel <;> rfl

/-- The production of a level, by that of the next one. -/
theorem lowest_eq_succ {k : Nat} (hk : k < Strength.unary) :
    lowest settings operand context k = (do
      let left ← lowest settings operand context (k + 1)
      rowAt settings operand context k (← get).remaining left) := by
  match k with
  | 0 | 1 =>
    -- There are no operators so weak.
    simp only [rowAt, level?, row_none]
    exact (bind_pure _).symm
  | 2 | 3 | 4 | 5 | 6 | 7 | 8 | 9 => rfl
  | k + 10 => exact absurd hk (Nat.not_lt.2 (Nat.le_add_left _ _))

theorem lowest_eq_add (k : Nat) {count : Nat} (hcount : k + count ≤ Strength.unary) :
    lowest settings operand context k =
      lowest settings operand context (k + count) >>=
        rowsFrom settings operand context k count := by
  induction count with
  | zero => exact (bind_pure _).symm
  | succ count ih =>
    rw [ih (by omega), lowest_eq_succ settings operand context (by omega), bind_assoc]
    refine bind_congr fun left => ?_
    rw [rowsFrom, bind_assoc]

/-- A production is an operand, and what is behind it at all levels from its own up. -/
theorem lowest_eq (k : Nat) : lowest settings operand context k =
    primary settings operand context >>=
      rowsFrom settings operand context k (Strength.unary - k) := by
  have hatom {k : Nat} (hk : Strength.unary ≤ k) :
      lowest settings operand context k = primary settings operand context := by
    have hnot {m : Nat} (hm : m < Strength.unary) : ¬ k ≤ m := by omega
    simp (disch := decide) only [lowest, hnot, if_false]
  rcases Nat.lt_or_ge k Strength.unary with hk | hk
  · rw [lowest_eq_add settings operand context k (Nat.add_sub_of_le hk.le).le,
      Nat.add_sub_of_le hk.le, hatom le_rfl]
  · rw [hatom hk, Nat.sub_eq_zero_of_le hk]
    exact (bind_pure _).symm

/-- In front of a token that is no operator of a level, nothing is read at that level. -/
theorem run_rowAt_of_ne {k : Nat} {s : ParseState}
    (h : ∀ j, Joint.ofToken? s.current.kind = some j → j.strength ≠ k) (fuel : Nat) (left : Node) :
    EStateM.run (rowAt settings operand context k fuel left) s = .ok left s := by
  rw [rowAt]
  split
  · next hk =>
    subst hk
    cases fuel with
    | zero => rfl
    | succ fuel =>
      have hnone : chain? s.current.kind = none := by
        refine Option.eq_none_iff_forall_ne_some.2 fun order horder => ?_
        exact h _ (chain?_eq_some.1 horder) rfl
      rw [chainRow, run_current_bind, hnone]
      rfl
  split
  · next hk =>
    subst hk
    rw [ternaryRest, run_current_bind]
    split
    · next hkind => exact absurd rfl (h .choice (by rw [hkind]; rfl))
    · next hkind => exact absurd rfl (h .arm (by rw [hkind]; rfl))
    · next hkind => exact absurd rfl (h .arm (by rw [hkind]; rfl))
    · rfl
  · next hchain hternary =>
    cases fuel with
    | zero => rfl
    | succ fuel =>
      have hnone : level? k s.current.kind = none := by
        rw [level?_eq hchain hternary]
        exact Option.bind_eq_none_iff.2 fun j hj => if_neg (h j hj)
      rw [row, run_current_bind, hnone]
      rfl

/-- In front of a token that is no operator of the upper ones of some levels, nothing is read at
those. -/
theorem run_rowsFrom_eq {k low high : Nat} (hle : low ≤ high) {s : ParseState}
    (h : ∀ j, Joint.ofToken? s.current.kind = some j → j.strength < k + low ∨ k + high ≤ j.strength)
    (left : Node) :
    EStateM.run (rowsFrom settings operand context k high left) s =
      EStateM.run (rowsFrom settings operand context k low left) s := by
  induction high, hle using Nat.le_induction with
  | base => rfl
  | succ high hle ih =>
    have hrow : EStateM.run (rowAt settings operand context (k + high) s.remaining left) s =
        .ok left s := by
      refine run_rowAt_of_ne settings operand context (fun j hj => ?_) _ _
      have := h j hj
      omega
    show EStateM.run (rowAt settings operand context (k + high) s.remaining left >>=
      rowsFrom settings operand context k high) s = _
    rw [EStateM.run_bind, hrow]
    refine ih fun j hj => ?_
    have := h j hj
    omega

end Rows

/-! ## Operations -/

section Operations

variable {settings : ParseSettings} {operand operand' : OperandParser} {context : ReadContext}
  {n fuel : Nat} {t : Token} {left : Node}

/-- An operator that only joins two operands. -/
theorem operation_eq {j : Joint} {build : Build} (h : build? j = some build) (left : Node) :
    operation settings operand' j left context = (do
      let _ ← advance
      let right ← operand' (j.strength + 1) context
      make (build left right) (left.span.merge right.span) left.line) := by
  cases j <;> cases h <;> rfl

theorem run_row {op? : TokenKind → Option Build} {build : Build} {s : ParseState}
    (h : op? s.current.kind = some build) (next : Parse Node) (g : Node → Parse Node) :
    EStateM.run (row op? next (fuel + 1) left >>= g) s = EStateM.run (do
      let _ ← advance
      let right ← next
      let n ← make (build left right) (left.span.merge right.span) left.line
      row op? next fuel n >>= g) s := by
  rw [row, bind_assoc, run_current_bind, h]
  simp only [bind_assoc]

theorem run_chainRow {order : ChainOrder} {s : ParseState}
    (h : chain? s.current.kind = some order) (g : Node → Parse Node) :
    EStateM.run (chainRow settings operand context (fuel + 1) left >>= g) s = EStateM.run (do
      let _ ← advance
      let right ← toConsequence settings (← ternary settings operand .consequence)
      let first ← chainHead settings left context
      let n ← make (Node.chain order first right) (first.span.merge right.span) left.line
      chainRow settings operand context fuel n >>= g) s := by
  rw [chainRow, bind_assoc, run_current_bind, h]
  simp only [bind_assoc]

theorem run_ternaryRest_question {s : ParseState}
    (h : Joint.ofToken? s.current.kind = some .choice) (g : Node → Parse Node) :
    EStateM.run (ternaryRest settings operand left >>= g) s = EStateM.run (do
      let _ ← advance
      let yes ← consequence settings operand
      let _ ← expect .colon "':' in conditional expression"
      let no ← toConsequence settings (← operand Strength.ternary .consequence)
      let n ← make (Node.decision left (some yes) (some no)) (left.span.merge no.span) left.line
      g n) s := by
  rw [ternaryRest, bind_assoc, run_current_bind, ofToken?_eq_choice.1 h]
  simp only [bind_assoc]

theorem run_ternaryRest_arm {s : ParseState}
    (h : Joint.ofToken? s.current.kind = some .arm) (g : Node → Parse Node) :
    EStateM.run (ternaryRest settings operand left >>= g) s = EStateM.run (do
      let _ ← advance
      let body ← toConsequence settings (← operand Strength.ternary .consequence)
      let n ← make (Node.decision left (some body) none) (left.span.merge body.span) left.line
      g n) s := by
  rw [ternaryRest, bind_assoc, run_current_bind]
  rcases ofToken?_eq_arm.1 h with hkind | hkind
  · simp only [hkind, bind_assoc]
  · simp only [hkind, bind_assoc]

theorem chainHead_outlasts {K : Token → Prop} (m : Node) :
    Outlasts n K (chainHead settings m context) (chainHead settings m context) fun _ t => K t := by
  rw [chainHead]
  split
  · exact .ite (.pure fun _ h => h) (toConsequence_outlasts settings m)
  · exact toConsequence_outlasts settings m

/-- Operands are read alike, in one way by strengths and in the other by levels, and nothing that
binds tightly enough is left behind them. -/
def Operands (n : Nat) (operand operand' : OperandParser) : Prop :=
  ∀ strength context, Outlasts n anyToken (operand strength context) (operand' strength context)
    fun _ t => t.Closes strength

variable {f g : Node → Parse Node} {Q : Node → Token → Prop}

/-- An operation is read at the level of its operator. -/
theorem operation_outlasts {j : Joint} (hj : Joint.ofToken? t.kind = some j)
    (hnext : 0 < n → Operands (n - 1) operand' fun strength context =>
      lowest settings operand context strength)
    (hoperand : 0 < n → Operands (n - 1) operand' operand)
    (hrest : ∀ m, 0 < n → Outlasts (n - 1) (Token.Closes (j.strength + 1)) (f m)
      (rowAt settings operand context j.strength fuel m >>= g) Q) :
    Outlasts n (· = t) (operation settings operand' j left context >>= f)
      (rowAt settings operand context j.strength (fuel + 1) left >>= g) Q := by
  have hne (u : Token) (hu : u = t) : u.kind ≠ .eof := by
    intro heof
    rw [hu] at heof
    rw [heof] at hj
    cases hj
  -- Behind the branch of a decision stands nothing that binds as tightly as one.
  have hlast (m : Node) (hn : 0 < n) (hternary : j.strength = Strength.ternary) :
      Outlasts (n - 1) (Token.Closes Strength.ternary) (f m) (g m) Q := by
    refine ((hrest m hn).weaken le_rfl (fun u hu k hk => ?_) fun _ _ h => h).congr fun s hs => ?_
    · have := hu k hk
      omega
    · rw [EStateM.run_bind, run_rowAt_of_ne settings operand context fun k hk => ?_]
      rw [hternary]
      exact (hs k hk).ne
  -- Chains and the two kinds of decisions have rows of their own, the other operators share one.
  rcases exists_build_or hj with ⟨order, rfl⟩ | rfl | rfl | ⟨hstrength, build, hbuild⟩
  · refine Outlasts.congr ?_ fun s hs => run_chainRow (chain?_eq_some.2 (hs ▸ hj)) g
    simp only [operation, bind_assoc]
    refine .take hne fun _ _ hn => (hnext hn Strength.ternary .consequence).bind fun r => ?_
    refine (toConsequence_outlasts settings r).bind fun right => ?_
    refine (chainHead_outlasts left).bind fun first => (Outlasts.make _ _ _).bind fun m => ?_
    exact hrest m hn
  · refine Outlasts.congr ?_ fun s hs => run_ternaryRest_question (hs ▸ hj) g
    simp only [operation, bind_assoc]
    refine .take hne fun _ _ hn => ?_
    refine (consequence_outlasts fun _ _ => (hoperand hn _ _).any).bind fun yes => ?_
    refine (Outlasts.expect .colon _).bind fun _ => ?_
    refine ((hoperand hn Strength.ternary .consequence).anywhere).bind fun r => ?_
    refine (toConsequence_outlasts settings r).bind fun no => (Outlasts.make _ _ _).bind fun m => ?_
    exact hlast m hn rfl
  · refine Outlasts.congr ?_ fun s hs => run_ternaryRest_arm (hs ▸ hj) g
    simp only [operation, bind_assoc]
    refine .take hne fun _ _ hn => (hoperand hn Strength.ternary .consequence).bind fun r => ?_
    refine (toConsequence_outlasts settings r).bind fun body => ?_
    exact (Outlasts.make _ _ _).bind fun m => hlast m hn rfl
  · have hchain : j.strength ≠ Strength.chain := by
      simp only [Strength.ternary, Strength.chain] at hstrength ⊢
      omega
    have hop : level? j.strength t.kind = some build := by
      rw [level?_eq hchain hstrength.ne', hj, Option.bind_some, if_pos rfl, hbuild]
    have hrow (fuel : Nat) (m : Node) : rowAt settings operand context j.strength fuel m =
        row (level? j.strength) (lowest settings operand context (j.strength + 1)) fuel m := by
      rw [rowAt, if_neg hchain, if_neg hstrength.ne']
    simp only [hrow] at hrest ⊢
    refine Outlasts.congr ?_ fun s hs => run_row (hs ▸ hop) _ g
    simp only [operation_eq hbuild, bind_assoc]
    refine .take hne fun _ _ hn => (hnext hn (j.strength + 1) context).bind fun right => ?_
    exact (Outlasts.make _ _ _).bind fun m => hrest m hn

/-- The loop over operators reads what the rows of its levels read. No operator of a higher level
is in front of it, for the operands of such operators were read at that level. -/
theorem operations_outlasts
    (hnext : ∀ m < n, Operands m operand' fun strength context =>
      lowest settings operand context strength)
    (hoperand : ∀ m < n, Operands m operand' operand) {fuel' : Nat} (hfuel : n < fuel)
    (hfuel' : n < fuel') (k count height : Nat) (left : Node) :
    Outlasts n (Token.Closes (k + count + 1))
      (operations settings operand' k context fuel left height)
      (rowAt settings operand context (k + count) fuel' left >>=
        rowsFrom settings operand context k count)
      fun _ t => t.Closes k := by
  -- Induction on the turns of the loop, for any tokens left and any levels still above.
  induction fuel generalizing n fuel' count height left with
  | zero => exact absurd hfuel (Nat.not_lt_zero n)
  | succ fuel ih =>
    refine .look fun t ht => ?_
    -- In front of a token that binds less tightly, or not at all, both ways end.
    have hdone (hstop : t.Closes k) : Outlasts n (· = t) (pure left)
        (rowAt settings operand context (k + count) fuel' left >>=
          rowsFrom settings operand context k count) fun _ t => t.Closes k := by
      refine (Outlasts.pure fun u hu => hu ▸ hstop).congr fun s hs => ?_
      subst hs
      have hrow : EStateM.run (rowAt settings operand context (k + count) fuel' left) s =
          .ok left s :=
        run_rowAt_of_ne settings operand context (fun j hj => by have := hstop j hj; omega) _ _
      rw [EStateM.run_bind, hrow]
      exact run_rowsFrom_eq settings operand context (Nat.zero_le count)
        (fun j hj => .inl (hstop j hj)) left
    cases hj : Joint.ofToken? t.kind with
    | none =>
      refine hdone fun j hj' => ?_
      rw [hj] at hj'
      cases hj'
    | some j =>
      dsimp only
      split
      · next hlt =>
        refine hdone fun j' hj' => ?_
        obtain rfl := Option.some.inj (hj.symm.trans hj')
        exact hlt
      next hle =>
      obtain ⟨i, hi⟩ := Nat.exists_eq_add_of_le (Nat.not_lt.1 hle)
      have hbound := ht j hj
      -- The operator is taken at its own level, and the rest is read from there on.
      have hturn {m fuel'' : Nat} (hm : m ≤ n) (hfuel'' : m ≤ fuel'') :
          Outlasts m (· = t)
            (operation settings operand' j left context >>= fun n =>
              checkHeight (stackedHeight n height) >>= fun _ =>
                operations settings operand' k context fuel n (stackedHeight n height))
            (rowAt settings operand context (k + i) (fuel'' + 1) left >>=
              rowsFrom settings operand context k i) fun _ t => t.Closes k := by
        rw [← hi]
        refine operation_outlasts hj (fun _ => hnext _ (by omega)) (fun _ => hoperand _ (by omega))
          fun r hpos => .checkHeight ?_
        rw [hi]
        exact ih (fun m' hm' => hnext m' (by omega)) (fun m' hm' => hoperand m' (by omega))
          (by omega) (by omega) i _ r
      rcases Nat.eq_or_lt_of_le (show i ≤ count by omega) with rfl | hlt
      · obtain ⟨fuel'', rfl⟩ := Nat.exists_eq_succ_of_ne_zero (Nat.ne_zero_of_lt hfuel')
        exact hturn le_rfl (by omega)
      · -- At the levels above, nothing is read.
        let rows (fuel : Nat) : Parse Node := rowAt settings operand context (k + i) fuel left >>=
          rowsFrom settings operand context k i
        have hrest := Outlasts.fuelBehind (P := fun _ t => t.Closes k) (g := rows)
          fun m fuel'' hm hfuel'' => by
            obtain ⟨fuel'', rfl⟩ := Nat.exists_eq_succ_of_ne_zero (Nat.ne_zero_of_lt hfuel'')
            exact hturn hm (Nat.le_of_lt_succ hfuel'')
        refine hrest.congr fun s hs => ?_
        subst hs
        have hrow : EStateM.run (rowAt settings operand context (k + count) fuel' left) s =
            .ok left s := by
          refine run_rowAt_of_ne settings operand context (fun j' hj' => ?_) _ _
          obtain rfl := Option.some.inj (hj.symm.trans hj')
          omega
        rw [EStateM.run_bind, hrow]
        refine run_rowsFrom_eq settings operand context hlt (fun j' hj' => ?_) left
        obtain rfl := Option.some.inj (hj.symm.trans hj')
        omega

/-- Behind an operand, what the loop reads is what the rows of its levels read. -/
theorem exprWith_outlasts
    (hnext : ∀ m < n, Operands m operand' fun strength context =>
      lowest settings operand context strength)
    (hoperand : ∀ m < n, Operands m operand' operand)
    (hstuck : ∀ kind : TokenKind, kind.begins = false → ∀ strength context,
      Stuck kind (operand' strength context)) (strength : Nat) :
    Outlasts n anyToken (exprWith settings operand' strength context)
      (lowest settings operand context strength) fun _ t => t.Closes strength := by
  rw [lowest_eq]
  have hprimary : Outlasts n anyToken (primary settings operand' context)
      (primary settings operand context) anyResult :=
    primary_outlasts
      (fun hpos strength context => (hoperand (n - 1) (by omega) strength context).any) hstuck
      context
  refine hprimary.bind fun left => .checkHeight ?_
  -- All operators bind less tightly than the level behind the last one.
  have hlast (t : Token) {k : Nat} (hk : Strength.unary ≤ k) : t.Closes k :=
    fun j hj => (j.strength_lt_unary hj).trans_le hk
  have hloop := Outlasts.fuel (n := n) (K := anyResult left) (P := fun _ t => t.Closes strength)
    (f := fun fuel => operations settings operand' strength context fuel left left.depth)
    (y := rowAt settings operand context (strength + (Strength.unary - strength)) (n + 1) left >>=
      rowsFrom settings operand context strength (Strength.unary - strength))
    fun m fuel hm hfuel =>
      (operations_outlasts (fun _ hm' => hnext _ (by omega)) (fun _ hm' => hoperand _ (by omega))
        hfuel (by omega) strength _ _ left).weaken le_rfl (fun t _ => hlast t (by omega))
        fun _ _ h => h
  refine hloop.congr fun s _ => ?_
  rw [EStateM.run_bind, run_rowAt_of_ne settings operand context fun j hj => ?_]
  exact (hlast s.current (by omega) j hj).ne

end Operations

/-! ## Expressions -/

section Expressions

variable (settings : ParseSettings)

/-- Read by strengths, an expression is what it is by levels, unless a limit is hit. -/
theorem expr_outlasts (levels : Nat) {n fuel : Nat} (hfuel : n < fuel) :
    Operands n (expr settings levels) (layers settings fuel) := by
  induction levels generalizing n fuel with
  | zero => exact fun _ _ _ _ _ _ _ => .limit
  | succ levels ih =>
    intro strength context
    obtain ⟨fuel, rfl⟩ := Nat.exists_eq_succ_of_ne_zero (Nat.ne_zero_of_lt hfuel)
    refine .nested (exprWith_outlasts (fun m hm => ?_) (fun m hm => ih (by omega))
      (fun _ hkind strength context => stuck_expr hkind levels strength context) strength)
    have hnext : Operands m (expr settings levels) (layers settings (fuel + 1)) := ih (by omega)
    exact hnext

variable {settings} {levels strength : Nat} {context : ReadContext} {s : ParseState}

theorem depth_stateAfter_expr (levels strength : Nat) (context : ReadContext)
    (hs : Terminated (s.current :: s.rest)) :
    (stateAfter (expr settings levels strength context) s).depth = s.depth := by
  have hakin : Akin settings settings False s.left (s.left - 1) .nothing Node.Alike
      (expr settings levels strength context) (expr settings levels strength context) :=
    expr_akin (.refl settings levels) strength context
  exact (hakin.after hs (Nat.le_refl _) trivial).2.depth

/-- **The loop over operators implements the grammar by levels.** From any place in a source, for
each strength and context, the production of the lowest level that is strong enough does the same
as the loop does: it comes to the same tree or fails with the same error, and leaves the same
tokens. Only where a limit on depth cuts the loop short the levels may go on. -/
theorem run_layered (hs : Terminated (s.current :: s.rest))
    (hlimit : ∀ activity limit t,
      EStateM.run (expr settings levels strength context) s ≠ .error (.tooDeep activity limit) t) :
    EStateM.run (layered settings strength context) s =
      EStateM.run (expr settings levels strength context) s := by
  have hdepth : (stateAfter (expr settings levels strength context) s).depth = s.depth :=
    depth_stateAfter_expr levels strength context hs
  have h := expr_outlasts settings levels s.left_lt_remaining strength context s s.depth hs
    le_rfl trivial
  show EStateM.run (layers settings s.remaining strength context) { s with depth := s.depth } = _
  generalize hr : EStateM.run (expr settings levels strength context) s = r at h
  generalize EStateM.run (layers settings s.remaining strength context) _ = r' at h
  cases h with
  | ok _ _ hresult =>
    rw [stateAfter_ok hr] at hdepth
    rw [← hdepth, hresult.1]
  | error =>
    rw [stateAfter_error hr] at hdepth
    rw [← hdepth]
  | limit => exact absurd hr (hlimit _ _ _)

/-- An expression with a text was read, up to the end of its source. -/
def readsAs (text : String) : EStateM.Result Error ParseState Node → Bool
  | .ok n t => n.text == text && t.current.kind == .eof
  | .error _ _ => false

/-- Operators of five levels, none of which needs parentheses. -/
theorem run_layered_mixed :
    let s : ParseState := .ofTokens (tokenize {} "a && b == c + d * e >> win").1 default
    ∃ n t, EStateM.run (layered {} 0 .condition) s = .ok n t ∧
      EStateM.run (expr {} 20 0 .condition) s = .ok n t ∧
      n.text = "a && b == c + d * e >> win" ∧ t.current.kind = .eof := by
  intro s
  have hread : readsAs "a && b == c + d * e >> win" (EStateM.run (expr {} 20 0 .condition) s) := by
    decide +kernel
  generalize hr : EStateM.run (expr {} 20 0 .condition) s = r at hread
  cases r with
  | error e t => cases hread
  | ok n t =>
    simp only [readsAs, Bool.and_eq_true, beq_iff_eq] at hread
    refine ⟨n, t, ?_, rfl, hread⟩
    rw [← hr]
    refine run_layered (Program.terminated_ofTokens _ _ _) fun activity limit u hlimit => ?_
    rw [hr] at hlimit
    cases hlimit

end Expressions

end Parse

end Rulebook
