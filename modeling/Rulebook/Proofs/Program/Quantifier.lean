import Rulebook.Proofs.Evaluation.ShortCircuit
import Rulebook.Proofs.Program.Below
import Rulebook.Proofs.Program.Facing

/-!
# Decisions on quantifiers

A decision on `any(…)` or `all(…)` is read as a decision on a row, whose operands are the
conditions between the commas. Its evaluation stops at the first operand that decides.

## Main definitions

* `Quantifier.decision`: the text of a decision on a quantifier
* `Node.Row`: a node joins operands that are equal to some conditions

## Main results

* `Program.exists_decision`: the tree of such a text
* `Program.quantifier_shortCircuits`: what its evaluation comes to
-/

namespace Rulebook

/-! ## Texts -/

namespace Quantifier

/-- The word for a quantifier. -/
def word : Quantifier → String
  | any => "any"
  | all => "all"

/-- The keyword that the word is. -/
def keyword : Quantifier → TokenKind
  | any => .kwAny
  | all => .kwAll

/-- The text of a decision on a quantifier. -/
def decision (q : Quantifier) (sources : List String) : String :=
  "if " ++ q.word ++ "(" ++ ", ".intercalate sources ++ ") then win end"

/-- The words of such a text, around the list of the conditions. -/
theorem exists_opens (golf : Bool) (q : Quantifier) (sources : List String) :
    ∃ tail yes close,
      Lexeme.Opens golf (q.decision sources).toList .kwIf (' ' :: (q.word.toList ++
        '(' :: ((", ".intercalate sources).toList ++ ')' :: ' ' :: tail))) ∧
      Lexeme.Opens golf tail .kwThen (' ' :: yes) ∧
        Lexeme.Opens golf yes (.verdict .win) (' ' :: close) ∧
          Lexeme.Opens golf close .kwEnd [] := by
  have htext : (q.decision sources).toList = 'i' :: 'f' :: ' ' :: (q.word.toList ++
      '(' :: ((", ".intercalate sources).toList ++ ')' :: " then win end".toList)) := by
    rw [decision]
    simp only [String.toList_append, List.append_assoc]
    rfl
  refine ⟨"then win end".toList, "win end".toList, "end".toList, ?_, ?_, ?_, ?_⟩
  · rw [htext]
    exact ⟨rfl, by simp, ['i', 'f'], rfl, rfl⟩
  · exact ⟨rfl, by simp, ['t', 'h', 'e', 'n'], rfl, rfl⟩
  · exact ⟨rfl, by simp, ['w', 'i', 'n'], rfl, rfl⟩
  · exact ⟨rfl, by simp, ['e', 'n', 'd'], rfl, rfl⟩

/-- The text of a list, up to its first comma. -/
theorem toList_cons_cons (source next : String) (sources : List String) (below : List Char) :
    (", ".intercalate (source :: next :: sources)).toList ++ below =
      source.toList ++ ',' :: ' ' :: ((", ".intercalate (next :: sources)).toList ++ below) := by
  rw [String.intercalate_cons_cons, String.toList_append, String.toList_append, List.append_assoc,
    List.append_assoc]
  rfl

theorem opens_word (golf : Bool) (q : Quantifier) (rest : List Char) :
    Lexeme.Opens golf (q.word.toList ++ '(' :: rest) q.keyword ('(' :: rest) := by
  refine ⟨by cases q <;> rfl, by cases q <;> simp [keyword], q.word.toList, rfl, ?_⟩
  cases q <;> rfl

end Quantifier

/-! ## Rows -/

namespace Node

variable {q : Quantifier} {n m : Node} {conditions : List Node}

theorem Alike.congr (h : n.Alike m) {m' : Node} (hkind : m'.kind = m.kind)
    (hchildren : m'.children = m.children) : n.Alike m' := by
  rw [alike_iff] at h ⊢
  rw [hkind, hchildren]
  exact h

/-- A node joins operands that are equal to some conditions. -/
def Row (q : Quantifier) (conditions : List Node) (n : Node) : Prop :=
  ∃ operands joints, n.Joins q operands joints ∧ List.Forall₂ Alike conditions operands

theorem Row.congr (h : n.Row q conditions) (hkind : m.kind = n.kind)
    (hchildren : m.children = n.children) : m.Row q conditions := by
  obtain ⟨operands, joints, hjoins, halike⟩ := h
  cases hjoins with
  | single n =>
    cases halike with
    | cons hn hnil =>
      exact ⟨_, _, .single m, .cons (hn.congr hkind hchildren) hnil⟩
  | snoc h hk => exact ⟨_, _, .snoc h (hkind.trans hk), halike⟩

theorem Row.single {condition : Node} (h : condition.Alike n) : n.Row q [condition] :=
  ⟨_, _, .single n, .cons h .nil⟩

/-- A row with one more operand. -/
theorem Row.logic {left right condition : Node} (h : left.Row q conditions)
    (hright : condition.Alike right) (id : NodeId) :
    (Node.logic q.op left right id).1.Row q (conditions ++ [condition]) := by
  have hleft : (left.withParent id).Row q conditions := h.congr rfl rfl
  obtain ⟨operands, joints, hjoins, halike⟩ := hleft
  have hlast : condition.Alike (right.withParent id) := hright.congr rfl rfl
  exact ⟨_, _, .snoc hjoins rfl, List.rel_append halike (.cons hlast .nil)⟩

end Node

/-- Only names may be read differently elsewhere. -/
theorem Token.kind_inContext {t : Token} {kind : TokenKind} (ht : t.kind = kind)
    (hname : ∀ name, kind ≠ .identifier name) (golf : Bool) (context : ReadContext) :
    (t.inContext golf context).kind = kind := by
  rw [inContext, ht]
  cases kind with
  | identifier name => exact absurd rfl (hname name)
  | _ => rfl

namespace Parse

open Program (IsCondition Uncommented)

section Lists

variable {scan : ScanSettings} {maxDepth levels : Nat} {q : Quantifier} {cs cs' below : List Char}
  {source : String} {sources : List String} {condition : Node} {conditions : List Node}
  {β : Type} {Q : β → Prop} {f : List Node → Parse β}

theorem joinAll_goes {left : Node} (hleft : left.Row q conditions) {more rest : List Node}
    (h : List.Forall₂ Node.Alike more rest) :
    Goes scan cs (joinAll q.op left rest) cs (·.Row q (conditions ++ more)) := by
  induction h generalizing left conditions with
  | nil =>
    rw [List.append_nil]
    exact .pure hleft
  | @cons condition right more rest hright _ ih =>
    have hjoined : Goes scan cs (make (Node.logic q.op left right) {} 0) cs
        (·.Row q (conditions ++ [condition])) :=
      make_goes fun id => (hleft.logic hright id).congr rfl rfl
    refine hjoined.bind fun n hn => ?_
    rw [List.append_cons]
    exact ih hn

/-- Behind the first of some sources there is a comma or the closing parenthesis. -/
theorem exists_break (golf : Bool) (source : String) (sources : List String) (below : List Char) :
    ∃ d kind rest, Lexeme.IsBreak d ∧ kind.breaks = true ∧
      Lexeme.Opens golf (d :: rest) kind rest ∧
        (", ".intercalate (source :: sources)).toList ++ ')' :: below =
          source.toList ++ d :: rest := by
  cases sources with
  | nil =>
    refine ⟨')', .rparen, below, .inr (.inr rfl), rfl, Lexeme.opens_rparen golf below, ?_⟩
    rw [String.intercalate_singleton]
  | cons next sources =>
    exact ⟨',', .comma, _, .inr (.inl rfl), rfl, Lexeme.opens_comma golf _,
      Quantifier.toList_cons_cons source next sources _⟩

/-- A list of conditions does not end where one is expected. -/
theorem ne_rparen (h : IsCondition scan maxDepth source condition)
    (hplain : Uncommented scan source) {s : ParseState}
    (hs : s.Faces scan ((", ".intercalate (source :: sources)).toList ++ ')' :: below)) :
    s.current.kind ≠ .rparen := by
  obtain ⟨d, kind, rest, hd, hkind, ho, htext⟩ := exists_break scan.golf source sources below
  rw [htext] at hs
  exact (h.goes hplain hd hkind ho).1 s hs

/-- Conditions between commas are read one after the other. -/
theorem quantified_goes (h : List.Forall₂ (IsCondition scan maxDepth) sources conditions)
    (hplain : ∀ source ∈ sources, Uncommented scan source) (hne : sources ≠ [])
    (hstuck : ∀ (ns : List Node) (s : ParseState) b t, s.current.kind ≠ .rparen →
      EStateM.run (f ns) s ≠ .ok b t)
    {seen done : List Node} (hdone : List.Forall₂ Node.Alike seen done)
    (hf : ∀ ns, List.Forall₂ Node.Alike (seen.reverse ++ conditions) ns →
      Goes scan (')' :: below) (f ns) cs' Q) (fuel : Nat) :
    Goes scan ((", ".intercalate sources).toList ++ ')' :: below)
      (quantified (expr ⟨scan.golf, maxDepth⟩ levels) fuel done >>= f) cs' Q := by
  induction h generalizing fuel seen done with
  | nil => exact absurd rfl hne
  | @cons source condition sources conditions hfirst hrest ih =>
    obtain ⟨hfirstplain, hrestplain⟩ := List.forall_mem_cons.1 hplain
    cases fuel with
    | zero =>
      -- What comes next is the closing parenthesis, which is not there.
      intro s t b hs hrun
      exact absurd hrun (hstuck _ s b t (ne_rparen hfirst hfirstplain hs))
    | succ fuel =>
    rw [quantified, bind_assoc]
    cases hrest with
    | nil =>
      rw [String.intercalate_singleton]
      obtain ⟨-, hgoes⟩ := hfirst.goes hfirstplain (.inr (.inr rfl)) rfl
        (Lexeme.opens_rparen scan.golf below)
      refine (hgoes levels).bind fun n hn => ?_
      rw [bind_assoc]
      refine (accept_goes_of_ne (Lexeme.opens_rparen scan.golf below) (by simp)).bind fun b hb => ?_
      rw [hb, if_neg Bool.false_ne_true, pure_bind]
      refine hf _ ?_
      rw [← List.reverse_cons]
      exact List.forall₂_reverse_iff.2 (.cons hn hdone)
    | @cons next condition' sources conditions hnext hrest =>
      rw [Quantifier.toList_cons_cons]
      obtain ⟨-, hgoes⟩ := hfirst.goes hfirstplain (.inr (.inl rfl)) rfl
        (Lexeme.opens_comma scan.golf _)
      refine (hgoes levels).bind fun n hn => ?_
      rw [bind_assoc]
      refine (accept_goes (Lexeme.opens_comma scan.golf _)).bind fun b hb => ?_
      rw [hb, if_pos rfl]
      refine Goes.blank (ih hrestplain (by simp) (.cons hn hdone) ?_ fuel)
      rw [List.reverse_cons, ← List.append_cons]
      exact hf

/-- Conditions up to the closing parenthesis, and what is made of them. -/
theorem operands_goes (h : List.Forall₂ (IsCondition scan maxDepth) sources conditions)
    (hplain : ∀ source ∈ sources, Uncommented scan source) (hne : sources ≠ [])
    (hstuck : ∀ (ns : List Node) (s : ParseState) b t, s.current.kind ≠ .rparen →
      EStateM.run (f ns) s ≠ .ok b t)
    (hf : ∀ ns, List.Forall₂ Node.Alike conditions ns → Goes scan (')' :: below) (f ns) cs' Q) :
    Goes scan ((", ".intercalate sources).toList ++ ')' :: below)
      (isAt .rparen >>= fun closed =>
        if closed then pure [] >>= f
        else MonadState.get >>= fun s =>
          quantified (expr ⟨scan.golf, maxDepth⟩ levels) s.remaining [] >>= f) cs' Q := by
  intro s t b hs hrun
  have hopen : (s.current.kind == .rparen) = false := by
    cases h with
    | nil => exact absurd rfl hne
    | cons hfirst _ =>
      exact beq_eq_false_iff_ne.2 (ne_rparen hfirst (hplain _ List.mem_cons_self) hs)
  obtain ⟨_, _, hclosed, hrun⟩ := exists_of_run_bind hrun
  cases hclosed
  rw [hopen, if_neg Bool.false_ne_true] at hrun
  exact quantified_goes h hplain hne hstuck .nil hf s.remaining hs hrun

theorem quantifier_goes (h : List.Forall₂ (IsCondition scan maxDepth) sources conditions)
    (hplain : ∀ source ∈ sources, Uncommented scan source) (hne : sources ≠ []) :
    Goes scan (q.word.toList ++ '(' :: ((", ".intercalate sources).toList ++ ')' :: below))
      (quantifier (expr ⟨scan.golf, maxDepth⟩ levels) q.op) below (·.Row q conditions) := by
  refine (advance_goes (q.opens_word scan.golf _)).bind fun start _ => ?_
  refine (expect_goes (Lexeme.opens_lparen scan.golf _)).bind fun _ _ => ?_
  refine operands_goes h hplain hne (fun ns s b t hs hrun => ?_) fun ns hns => ?_
  · obtain ⟨close, u, hclose, -⟩ := exists_of_run_bind hrun
    exact stuck_expect hs _ s rfl close u hclose
  · refine (expect_goes (Lexeme.opens_rparen scan.golf below)).bind fun close _ => ?_
    refine checkHeight_goes.bind fun _ _ => ?_
    cases hns with
    | nil =>
      cases h
      exact absurd rfl hne
    | @cons condition first conditions rest hfirst hrest =>
      refine (joinAll_goes (Node.Row.single hfirst) hrest).bind fun n hn => ?_
      exact .pure (hn.congr rfl rfl)

end Lists

section Decisions

variable {scan : ScanSettings} {maxDepth levels : Nat} {q : Quantifier} {cs cs' : List Char}
  {kind : TokenKind} {context : ReadContext} {settings : ParseSettings} {operand : OperandParser}
  {tail close : List Char} {sources : List String} {conditions : List Node} {P : Node → Prop}

/-- A verdict, in front of the end of a decision. -/
theorem win_goes (hwin : Lexeme.Opens scan.golf cs (.verdict .win) (' ' :: close))
    (hend : Lexeme.Opens scan.golf close .kwEnd []) :
    Goes scan (' ' :: cs)
      (consequence ⟨scan.golf, maxDepth⟩ (expr ⟨scan.golf, maxDepth⟩ levels)) close
        fun _ => True := by
  have hexpr : Goes scan cs (expr ⟨scan.golf, maxDepth⟩ levels 0 .consequence) close
      fun _ => True := by
    refine expr_goes fun levels => exprWith_goes ?_ hend rfl
    refine Goes.current hwin fun t ht => ?_
    dsimp only
    rw [Token.kind_inContext ht (by simp)]
    refine (advance_goes hwin).bind fun _ _ => Goes.blank ?_
    refine (accept_goes_of_ne hend (by simp)).bind fun b hb => ?_
    rw [hb, if_neg Bool.false_ne_true]
    exact make_goes fun _ => trivial
  exact hexpr.blank.bind fun n _ => toConsequence_goes _ n

/-- A quantifier as a condition, in front of what is to be done. -/
theorem condition_goes (h : List.Forall₂ (IsCondition scan maxDepth) sources conditions)
    (hplain : ∀ source ∈ sources, Uncommented scan source) (hne : sources ≠ [])
    (hthen : Lexeme.Opens scan.golf tail .kwThen cs) :
    Goes scan (q.word.toList ++
        '(' :: ((", ".intercalate sources).toList ++ ')' :: ' ' :: tail))
      (expr ⟨scan.golf, maxDepth⟩ levels 0 .condition) tail (·.Row q conditions) := by
  refine expr_goes fun levels => exprWith_goes (Goes.unblank ?_) hthen rfl
  refine Goes.current (q.opens_word scan.golf _) fun t ht => ?_
  dsimp only
  rw [Token.kind_inContext ht (by cases q <;> simp [Quantifier.keyword])]
  have hgoes : Goes scan (q.word.toList ++
        '(' :: ((", ".intercalate sources).toList ++ ')' :: ' ' :: tail))
      (quantifier (expr ⟨scan.golf, maxDepth⟩ levels) q.op) (' ' :: tail) (·.Row q conditions) :=
    quantifier_goes h hplain hne
  cases q with
  | any => exact hgoes
  | all => exact hgoes

/-- A decision on a row of operands that are equal to some conditions. -/
def DecidesRow (q : Quantifier) (conditions : List Node) (n : Node) : Prop :=
  ∃ condition yes, n.kind = .decision (some condition) (some yes) none ∧
    condition.Row q conditions

theorem DecidesRow.toConsequence_eq {n : Node} (h : DecidesRow q conditions n) :
    toConsequence settings n = (pure n : Parse Node) := by
  obtain ⟨condition, yes, hkind, -⟩ := h
  rw [toConsequence, hkind]

theorem ifDecision_goes (h : List.Forall₂ (IsCondition scan maxDepth) sources conditions)
    (hplain : ∀ source ∈ sources, Uncommented scan source) (hne : sources ≠ []) :
    Goes scan (q.decision sources).toList
      (ifDecision ⟨scan.golf, maxDepth⟩ (expr ⟨scan.golf, maxDepth⟩ levels)) []
      (DecidesRow q conditions) := by
  obtain ⟨tail, yes, close, hif, hthen, hwin, hend⟩ := q.exists_opens scan.golf sources
  refine (advance_goes hif).bind fun start _ => ?_
  refine (condition_goes h hplain hne hthen).blank.bind fun condition hcondition => ?_
  refine (expect_goes hthen).bind fun _ _ => (win_goes hwin hend).bind fun yes _ => ?_
  refine (accept_goes_of_ne hend (by simp)).bind fun b hb => ?_
  rw [hb, if_neg Bool.false_ne_true, pure_bind]
  refine (expect_goes hend).bind fun close _ => make_goes fun id => ⟨_, _, rfl, ?_⟩
  exact hcondition.congr rfl rfl

/-- The decision is the whole statement. -/
theorem item_goes (h : List.Forall₂ (IsCondition scan maxDepth) sources conditions)
    (hplain : ∀ source ∈ sources, Uncommented scan source) (hne : sources ≠ []) :
    Goes scan (q.decision sources).toList (item ⟨scan.golf, maxDepth⟩ levels) []
      (DecidesRow q conditions) := by
  obtain ⟨_, _, _, hif, -⟩ := q.exists_opens scan.golf sources
  have hexpr (levels : Nat) : Goes scan (q.decision sources).toList
      (expr ⟨scan.golf, maxDepth⟩ levels 0 .statement) [] (DecidesRow q conditions) := by
    refine expr_goes fun levels => exprWith_goes_nil (Goes.current hif fun t ht => ?_)
    dsimp only
    rw [Token.kind_inContext ht (by simp)]
    exact ifDecision_goes h hplain hne
  have hstatement (levels : Nat) : Goes scan (q.decision sources).toList
      (statement ⟨scan.golf, maxDepth⟩ (expr ⟨scan.golf, maxDepth⟩ levels)) []
      (DecidesRow q conditions) := by
    refine Goes.current hif fun start _ => (hexpr levels).bind fun n hn => ?_
    refine (accept_goes_nil (by simp)).bind fun b hb => ?_
    rw [hb, if_neg Bool.false_ne_true, hn.toConsequence_eq]
    exact .pure hn
  cases levels with
  | zero => exact hstatement 0
  | succ levels => exact Goes.isAt hif .kwRule (hstatement (levels + 1))

end Decisions

end Parse

/-! ## Programs -/

namespace Program

open Parse

/-- The root of a program is a block. -/
theorem kind_tree (scan : ScanSettings) (maxDepth : Nat) (source : String) (next : NodeId) :
    (parse scan maxDepth source next).1.tree.kind = .block := by
  obtain ⟨ns, t, hrun⟩ := items_total (item ⟨scan.golf, maxDepth⟩ maxDepth) false
    (ParseState.ofTokens (tokenize scan source).1 next).remaining []
    (ParseState.ofTokens (tokenize scan source).1 next)
  have hroot : EStateM.run (root ⟨scan.golf, maxDepth⟩)
      (ParseState.ofTokens (tokenize scan source).1 next) = _ := run_root hrun
  rw [parse_eq hroot]
  rfl

section Decisions

variable {scan : ScanSettings} {maxDepth : Nat} {q : Quantifier} {sources : List String}
  {conditions : List Node}

/-- A source whose first item reaches the end holds nothing else, if there are no errors. -/
theorem exists_child {source : String} {next : NodeId} {kind : TokenKind} {cs : List Char}
    {P : Node → Prop} (ho : Lexeme.Opens scan.golf source.toList kind cs)
    (hrule : kind ≠ .kwRule) (hsemicolon : kind ≠ .semicolon)
    (hgoes : Goes scan source.toList (item ⟨scan.golf, maxDepth⟩ maxDepth) [] P)
    (herrors : (parse scan maxDepth source next).1.errors = []) :
    ∃ n id, (parse scan maxDepth source next).1.tree.children = [n.withParent id] ∧ P n := by
  have hfaces := ParseState.faces_ofTokens scan source next
  obtain ⟨ns, t, id, hrun, hchildren, hnoted⟩ := exists_readItems scan maxDepth source next rfl
  generalize ParseState.ofTokens (tokenize scan source).1 next = s at hfaces hrun
  obtain ⟨rfl, -, -⟩ := hfaces.opens ho
  have hquiet : t.errors.size = 0 := by
    rw [herrors] at hnoted
    rw [← Array.length_toList, (List.append_eq_nil_iff.1 hnoted.symm).2, List.length_nil]
  have hstarts : (s.current.kind == .eof || (false && s.current.kind == .rbrace)) = false := by
    rw [Bool.false_and, Bool.or_false]
    exact beq_eq_false_iff_ne.2 ho.2.1
  obtain ⟨new, u, hturn, hu, hlength, hnew⟩ :=
    exists_turn scan maxDepth hfaces.terminated ho.2.1 hrule hsemicolon
  have hrest := run_items_turn s.rest.length [] hstarts hturn
  have hall : EStateM.run (readItems scan maxDepth s.rest.length (new.toList ++ [])) u = .ok ns t :=
    hrest.symm.trans hrun
  rcases hnew with ⟨n, rfl, -⟩ | hfault
  · -- The item was read up to the end, where the row of items ends.
    rw [run_turn false _ hsemicolon] at hturn
    split at hturn
    · next n' u' hitem =>
      cases hturn
      obtain ⟨hend, hn⟩ := hgoes hfaces hitem
      have hnil : EStateM.run (readItems scan maxDepth s.rest.length [n]) u = .ok [n] u :=
        run_items_eof false s.rest.length [n] hend.nil
      obtain ⟨rfl, -⟩ := EStateM.Result.ok.inj (hnil.symm.trans hall)
      exact ⟨n, id, hchildren, hn⟩
    · obtain ⟨_, _, -, hnone⟩ := exists_of_run_bind hturn
      cases hnone
  · -- Errors stay noted.
    obtain ⟨more, v, hmore, hsize⟩ :=
      exists_readItems_from scan maxDepth hu hlength (new.toList ++ []).reverse
    rw [List.reverse_reverse] at hmore
    obtain ⟨-, rfl⟩ := EStateM.Result.ok.inj (hmore.symm.trans hall)
    omega

/-- The tree of a decision on a quantifier is a decision on a row. -/
theorem exists_decision (h : List.Forall₂ (IsCondition scan maxDepth) sources conditions)
    (hplain : ∀ source ∈ sources, Uncommented scan source) (hne : sources ≠ [])
    {next : NodeId} (herrors : (parse scan maxDepth (q.decision sources) next).1.errors = []) :
    ∃ decision, (parse scan maxDepth (q.decision sources) next).1.tree.children = [decision] ∧
      DecidesRow q conditions decision := by
  obtain ⟨_, _, _, hif, -⟩ := q.exists_opens scan.golf sources
  obtain ⟨n, id, hchildren, condition, yes, hkind, hrow⟩ :=
    exists_child hif (by simp) (by simp) (item_goes h hplain hne) herrors
  exact ⟨_, hchildren, condition, yes, hkind, hrow⟩

/-- **Quantifiers stop at the first operand that decides.** The condition of the decision joins
operands that are equal to the conditions between the commas. When the machine comes to it, it
evaluates these in order, up to the first whose value is a fault or decides, or all of them. The
condition has the fault of the last of these, or tells whether some, or all, of them are true. -/
theorem quantifier_shortCircuits (scan : ScanSettings) (maxDepth : Nat) (q : Quantifier)
    {sources : List String} {conditions : List Node} (hlength : 2 ≤ sources.length)
    (h : List.Forall₂ (IsCondition scan maxDepth) sources conditions)
    (hplain : ∀ source ∈ sources, Uncommented scan source) (next : NodeId)
    (herrors : (parse scan maxDepth (q.decision sources) next).1.errors = []) :
    ∃ decision condition yes operands joints,
      (parse scan maxDepth (q.decision sources) next).1.tree.children = [decision] ∧
      decision.kind = .decision (some condition) (some yes) none ∧
      condition.Joins q operands joints ∧ List.Forall₂ Node.Alike conditions operands ∧
      ∀ {σ : Type} (e : Evaluator) (host : Host σ) (world : σ),
        ¬ e.EndsIn host (parse scan maxDepth (q.decision sources) next).1.tree world
            (.tooDeep "evaluator" e.settings.maxDepth) →
        (∀ name, ¬ e.EndsIn host (parse scan maxDepth (q.decision sources) next).1.tree world
            (.ruleLoop name)) →
          e.ShortCircuits host (parse scan maxDepth (q.decision sources) next).1.tree world q
            condition operands joints := by
  have hne : sources ≠ [] := List.ne_nil_of_length_pos (by omega)
  obtain ⟨decision, hchildren, condition, yes, hkind, operands, joints, hjoins, halike⟩ :=
    exists_decision h hplain hne herrors
  have hblock := kind_tree scan maxDepth (q.decision sources) next
  refine ⟨decision, condition, yes, operands, joints, hchildren, hkind, hjoins, halike, ?_⟩
  intro σ e host world hceiling hloop
  generalize (parse scan maxDepth (q.decision sources) next).1.tree = tree at *
  obtain ⟨v, t, hok⟩ := Evaluator.exists_outcome_eq_ok hceiling hloop
  -- The block asks for the decision first, and this for its condition.
  have hbegun : e.machine host tree world 0 =
      ⟨.eval tree, [], e.start ⟨host, e.settings, tree.ruleTable⟩ world⟩ := rfl
  have hfirst := Evaluator.machine_child hok hbegun (m := decision) (by
    rw [Eval.Plan.ofNode, hblock, hchildren]
    rfl)
  have hsecond := Evaluator.machine_child hok hfirst (m := condition) (by
    rw [Eval.Plan.ofNode, hkind]
    rfl)
  have htwo : 2 ≤ operands.length := by
    rw [← halike.length_eq, ← h.length_eq]
    exact hlength
  exact Evaluator.shortCircuits_of_begun hok hjoins htwo hsecond

/-- The second operand has a comma of its own. -/
theorem quantifier_shortCircuits_all :
    (∀ source ∈ ["x > 1", "any(y, z)", "!w"], readsCondition {} 20 source = true) ∧
      ∃ decision condition yes operands joints,
        (parse {} 20 (Quantifier.all.decision ["x > 1", "any(y, z)", "!w"])
          default).1.tree.children = [decision] ∧
        decision.kind = .decision (some condition) (some yes) none ∧
        condition.Joins .all operands joints ∧ operands.length = 3 ∧
        (Evaluator.ofSettings {}).ShortCircuits Environment.host
          (parse {} 20 (Quantifier.all.decision ["x > 1", "any(y, z)", "!w"]) default).1.tree {}
          .all condition operands joints := by
  have hreads : ∀ source ∈ ["x > 1", "any(y, z)", "!w"], readsCondition {} 20 source = true := by
    decide +kernel
  have hplain : ∀ source ∈ ["x > 1", "any(y, z)", "!w"], Uncommented {} source := by
    decide +kernel
  have herrors : (parse {} 20 (Quantifier.all.decision ["x > 1", "any(y, z)", "!w"])
      default).1.errors = [] := by
    decide +kernel
  have hok : (match (Evaluator.ofSettings {}).outcome Environment.host
      (parse {} 20 (Quantifier.all.decision ["x > 1", "any(y, z)", "!w"]) default).1.tree {} with
    | .ok _ _ => true
    | .error _ _ => false) = true := by
    decide +kernel
  have hends (err : Error) : ¬ (Evaluator.ofSettings {}).EndsIn Environment.host
      (parse {} 20 (Quantifier.all.decision ["x > 1", "any(y, z)", "!w"]) default).1.tree {}
      err := by
    rintro ⟨s, hs⟩
    rw [hs] at hok
    cases hok
  obtain ⟨first, hfirst⟩ := exists_isCondition (hreads "x > 1" (by simp))
  obtain ⟨second, hsecond⟩ := exists_isCondition (hreads "any(y, z)" (by simp))
  obtain ⟨third, hthird⟩ := exists_isCondition (hreads "!w" (by simp))
  obtain ⟨decision, condition, yes, operands, joints, hchildren, hkind, hjoins, halike,
      hcircuits⟩ :=
    quantifier_shortCircuits {} 20 .all (by decide)
      (.cons hfirst (.cons hsecond (.cons hthird .nil))) hplain default herrors
  exact ⟨hreads, decision, condition, yes, operands, joints, hchildren, hkind, hjoins,
    halike.length_eq.symm, hcircuits _ Environment.host {} (hends _) fun name => hends _⟩

end Decisions

end Program

end Rulebook
