import Rulebook.Proofs.Program.Formula
import Rulebook.Proofs.Token.Spelling

/-!
# The text of a formula

The tree of a formula is written with the tokens of the formula, and a lexer takes the text apart
at the same places: signs stand in front of characters that do not continue them, operators between
blanks.

## Main definitions

* `Written`: a text that is read as some tokens, whatever text that continues no word follows

## Main results

* `Node.HasForm.written`: the text of a tree is read as the tokens of its formula
* `tokenize_decision`: the tokens of a decision on a formula
-/

namespace Rulebook

open Cursor

/-! ## Pieces of text -/

section Pieces

variable {text text' : List Char} {kinds kinds' : List TokenKind}

/-- The end of a word. -/
def AtWordEnd : List Char → Prop :=
  Before (Lexeme.isWordChar · = false)

/-- A character that continues neither a row of blanks nor a sign in front of it. -/
def Opens (c : Char) : Prop :=
  isBlank c = false ∧ c ≠ '=' ∧ c ≠ '>'

/-- A text that is read as some tokens, unless a word is continued behind it. -/
structure Written (text : List Char) (kinds : List TokenKind) : Prop where
  opens : ∃ c tail, text = c :: tail ∧ Opens c
  spells : Spells AtWordEnd text kinds

theorem opens_of_startsWord {c : Char} (h : Lexeme.StartsWord c) : Opens c := by
  refine ⟨h.1, ?_, ?_⟩ <;> rintro rfl
  · have hkind := congrArg Lexeme.kind (h.2 [])
    revert hkind
    decide +kernel
  · have hkind := congrArg Lexeme.kind (h.2 [])
    revert hkind
    decide +kernel

theorem atWordEnd_cons {c : Char} (h : Lexeme.isWordChar c = false) (rest : List Char) :
    AtWordEnd (c :: rest) :=
  before_append h [] rest

theorem spells_lparen (F : List Char → Prop) : Spells F ['('] [.lparen] :=
  spells_lexeme (by simp) rfl fun _ _ => rfl

theorem spells_rparen (F : List Char → Prop) : Spells F [')'] [.rparen] :=
  spells_lexeme (by simp) rfl fun _ _ => rfl

theorem spells_bang : Spells (Before (· ≠ '=')) ['!'] [.bang] := by
  refine spells_lexeme (by simp) rfl fun rest hrest => ?_
  have hlexeme : Lexeme.ofChars false ('!' :: rest) =
      if rest.head? = some '=' then ⟨.bangEq, 2⟩ else ⟨.bang, 1⟩ :=
    rfl
  exact hlexeme.trans (if_neg fun h => hrest _ h rfl)

theorem spells_minus : Spells (Before (· ≠ '>')) ['-'] [.minus] := by
  refine spells_lexeme (by simp) rfl fun rest hrest => ?_
  have hlexeme : Lexeme.ofChars false ('-' :: rest) =
      if rest.head? = some '>' then ⟨.arrow, 2⟩ else ⟨.minus, 1⟩ :=
    rfl
  exact hlexeme.trans (if_neg fun h => hrest _ h rfl)

/-- An operator in front of a blank. -/
theorem ofChars_chars (op : BinaryOp) (rest : List Char) :
    Lexeme.ofChars false (op.chars ++ ' ' :: rest) = ⟨op.token, op.chars.length⟩ := by
  cases op with
  | logic op h => cases op <;> rfl
  | comparison op => cases op <;> rfl
  | arithmetic op h => cases op <;> rfl

theorem BinaryOp.token_ne_eof (op : BinaryOp) : op.token ≠ .eof := by
  intro h
  have hjoint := op.ofToken?_token
  rw [h] at hjoint
  cases hjoint

theorem BinaryOp.isSignificant_token (op : BinaryOp) : op.token.isSignificant = true := by
  cases op with
  | logic op h => cases op <;> rfl
  | comparison op => cases op <;> rfl
  | arithmetic op h => cases op <;> rfl

/-- An operator between blanks. -/
theorem spells_between (op : BinaryOp) :
    Spells (Before (isBlank · = false)) (' ' :: op.chars ++ [' ']) [op.token] := by
  have hsymbol : Spells (fun rest => rest.head? = some ' ') op.chars [op.token] := by
    refine spells_lexeme op.token_ne_eof op.isSignificant_token fun rest hrest => ?_
    obtain ⟨tail, rfl⟩ := List.head?_eq_some_iff.1 hrest
    exact ofChars_chars op tail
  have hopens : ∃ c tail, op.chars = c :: tail ∧ isBlank c = false := by
    cases op with
    | logic op h => cases op <;> exact ⟨_, _, rfl, rfl⟩
    | comparison op => cases op <;> exact ⟨_, _, rfl, rfl⟩
    | arithmetic op h => cases op <;> exact ⟨_, _, rfl, rfl⟩
  obtain ⟨c, tail, hchars, hc⟩ := hopens
  have hfront : Spells (fun rest => rest.head? = some ' ') ([' '] ++ op.chars)
      ([] ++ [op.token]) := by
    refine spells_blank.append hsymbol fun rest _ => ?_
    rw [hchars]
    exact before_append hc tail rest
  exact hfront.append spells_blank fun rest _ => rfl

/-- A reserved word. -/
theorem spells_keyword {c : Char} {tail : List Char} {kind : TokenKind} (hc : Lexeme.StartsWord c)
    (htail : tail.all Lexeme.isWordChar = true)
    (hkind : TokenKind.ofWord? (String.ofList (c :: tail)) = some kind)
    (hsig : kind.isSignificant = true) (heof : kind ≠ .eof) :
    Spells AtWordEnd (c :: tail) [kind] := by
  refine spells_word hc (List.all_eq_true.1 htail) ?_ hsig heof
  rw [hkind]
  rfl

namespace Written

theorem before (h : Written text kinds) {p : Char → Prop} (hp : ∀ c, Opens c → p c)
    (rest : List Char) : Before p (text ++ rest) := by
  obtain ⟨c, tail, rfl, hc⟩ := h.opens
  exact before_append (hp c hc) tail rest

theorem keyword {c : Char} {tail : List Char} {kind : TokenKind} (hc : Lexeme.StartsWord c)
    (htail : tail.all Lexeme.isWordChar = true)
    (hkind : TokenKind.ofWord? (String.ofList (c :: tail)) = some kind)
    (hsig : kind.isSignificant = true) (heof : kind ≠ .eof) : Written (c :: tail) [kind] :=
  ⟨⟨c, tail, rfl, opens_of_startsWord hc⟩, spells_keyword hc htail hkind hsig heof⟩

/-- Parentheses around a text. -/
theorem parenthesized (h : Written text kinds) :
    Written ('(' :: text ++ [')']) (.lparen :: kinds ++ [.rparen]) := by
  refine ⟨⟨'(', text ++ [')'], rfl, by decide, by decide, by decide⟩, ?_⟩
  have hfront : Spells AtWordEnd (['('] ++ text) ([.lparen] ++ kinds) :=
    (spells_lparen (fun _ => True)).append h.spells fun _ _ => trivial
  exact hfront.append (spells_rparen _) fun rest _ => atWordEnd_cons (by decide) rest

/-- Parentheses around a text that binds looser than its place asks for. -/
theorem enclosed (h : Written text kinds) (strength place : Nat) :
    Written (if strength < place then '(' :: text ++ [')'] else text)
      (Formula.enclosed strength place kinds) := by
  rw [Formula.enclosed]
  split
  · exact h.parenthesized
  · exact h

/-- The parentheses of a call behind a name. -/
theorem called (h : Written text kinds) :
    Written (text ++ ['(', ')']) (kinds ++ [.lparen, .rparen]) := by
  obtain ⟨c, tail, rfl, hc⟩ := h.opens
  refine ⟨⟨c, _, rfl, hc⟩, ?_⟩
  have hbehind : Spells AtWordEnd (['('] ++ [')']) ([.lparen] ++ [.rparen]) :=
    (spells_lparen (fun _ => True)).append (spells_rparen _) fun _ _ => trivial
  exact h.spells.append hbehind fun rest _ => atWordEnd_cons (by decide) _

/-- A sign in front of its operand. -/
theorem signed (sign : Sign) (h : Written text kinds) :
    Written (sign.symbol :: text) (sign.token :: kinds) := by
  cases sign with
  | not =>
    refine ⟨⟨'!', text, rfl, by decide, by decide, by decide⟩, ?_⟩
    exact spells_bang.append h.spells fun rest _ => h.before (fun _ hc => hc.2.1) rest
  | minus =>
    refine ⟨⟨'-', text, rfl, by decide, by decide, by decide⟩, ?_⟩
    exact spells_minus.append h.spells fun rest _ => h.before (fun _ hc => hc.2.2) rest

/-- An operator between its operands. -/
theorem joined (op : BinaryOp) (h : Written text kinds) (h' : Written text' kinds') :
    Written (text ++ (' ' :: op.chars ++ [' ']) ++ text') (kinds ++ [op.token] ++ kinds') := by
  obtain ⟨c, tail, rfl, hc⟩ := h.opens
  refine ⟨⟨c, _, rfl, hc⟩, ?_⟩
  have hfront : Spells (Before (isBlank · = false))
      ((c :: tail) ++ (' ' :: op.chars ++ [' '])) (kinds ++ [op.token]) :=
    h.spells.append (spells_between op) fun rest _ => atWordEnd_cons (by decide) _
  exact hfront.append h'.spells fun rest _ => h'.before (fun _ hc => hc.1) rest

end Written

end Pieces

/-! ## Texts of trees -/

section Trees

variable {n : Node} {f : Formula}

theorem written_identifier (name : Identifier) :
    Written name.text.toList [.identifier name.text] := by
  obtain ⟨⟨c, tail, hname, hc⟩, hspells⟩ := spells_name name.isName
  exact ⟨⟨c, tail, hname, opens_of_startsWord hc⟩, hspells⟩

theorem written_constant (c : Constant) : Written c.literal.text.toList [c.token] := by
  cases c with
  | null =>
    have hchars : (Literal.null).text.toList = ['n', 'u', 'l', 'l'] := String.toList_ofList
    rw [Constant.literal, hchars]
    exact .keyword ⟨rfl, fun _ => rfl⟩ rfl rfl rfl (by simp [Constant.token])
  | bool b =>
    cases b with
    | false =>
      have hchars : (Literal.bool false).text.toList = ['f', 'a', 'l', 's', 'e'] :=
        String.toList_ofList
      rw [Constant.literal, hchars]
      exact .keyword ⟨rfl, fun _ => rfl⟩ rfl rfl rfl (by simp [Constant.token])
    | true =>
      have hchars : (Literal.bool true).text.toList = ['t', 'r', 'u', 'e'] := String.toList_ofList
      rw [Constant.literal, hchars]
      exact .keyword ⟨rfl, fun _ => rfl⟩ rfl rfl rfl (by simp [Constant.token])

/-- The text of an operand, in parentheses if it binds looser than its place asks for. -/
theorem Node.HasForm.written_operand (h : n.HasForm f) {text : Node → String}
    (hn : Written (text n).toList f.tokens) (place : Nat) :
    Written (operandText text place (some n)).toList (f.tokensAt place) := by
  have htext : (operandText text place (some n)).toList =
      if f.strength < place then '(' :: (text n).toList ++ [')'] else (text n).toList := by
    rw [operandText, h.strength_eq]
    split <;> simp
  rw [htext]
  exact hn.enclosed f.strength place

theorem Node.toList_render_signed {sign : Sign} {a : Node} (h : n.kind = sign.kind a)
    (levels : Nat) : (n.render (levels + 1)).toList =
      sign.symbol :: (operandText (render levels) Strength.unary (some a)).toList := by
  rw [render, renderWith, h]
  cases sign <;> rw [Sign.kind] <;> dsimp only <;> rw [String.toList_append] <;> rfl

theorem Node.toList_render_joined {op : BinaryOp} {a b : Node} (h : n.kind = op.kind a b)
    (levels : Nat) : (n.render (levels + 1)).toList =
      (operandText (render levels) op.strength (some a)).toList ++ (' ' :: op.chars ++ [' ']) ++
        (operandText (render levels) (op.strength + 1) (some b)).toList := by
  have htext : n.render (levels + 1) =
      binaryText (render levels) op.strength op.symbol (some a) (some b) := by
    rw [render, renderWith, h]
    cases op with
    | logic op hop => cases op <;> first | rfl | exact absurd rfl hop
    | comparison op => rfl
    | arithmetic op hop => cases op <;> first | rfl | exact absurd rfl hop
  rw [htext, binaryText, ← op.toList_symbol]
  simp

/-- The text of a tree is read as the tokens of its formula. -/
theorem Node.HasForm.written {levels : Nat} (h : n.HasForm f) (hdepth : f.depth ≤ levels) :
    Written (n.render levels).toList f.tokens := by
  -- Each level of the formula takes one of the levels down to which the tree is written.
  induction f generalizing n levels with
  | identifier name =>
    obtain ⟨levels, rfl⟩ : ∃ l, levels = l + 1 := Nat.exists_eq_add_of_le' hdepth
    rw [render, renderWith, h.1]
    exact written_identifier name
  | ruleCall name =>
    obtain ⟨levels, rfl⟩ : ∃ l, levels = l + 1 := Nat.exists_eq_add_of_le' hdepth
    have hname : Written name.text.toList [.identifier name.text] := written_identifier name
    rw [render, renderWith, h.1, Formula.tokens]
    dsimp only
    rw [String.toList_append]
    exact hname.called
  | constant c =>
    obtain ⟨levels, rfl⟩ : ∃ l, levels = l + 1 := Nat.exists_eq_add_of_le' hdepth
    rw [render, renderWith, h.1]
    exact written_constant c
  | signed sign f ih =>
    obtain ⟨a, hkind, -, ha⟩ := h
    obtain ⟨levels, rfl⟩ : ∃ l, levels = l + 1 :=
      Nat.exists_eq_add_of_le' (Nat.le_trans (Nat.le_add_right 1 _) hdepth)
    rw [Formula.depth] at hdepth
    have hf : Written (a.render levels).toList f.tokens := ih ha (by omega)
    have hoperand := ha.written_operand hf Strength.unary
    rw [toList_render_signed hkind]
    exact hoperand.signed sign
  | joined op f g ihf ihg =>
    obtain ⟨a, b, hkind, -, ha, hb⟩ := h
    obtain ⟨levels, rfl⟩ : ∃ l, levels = l + 1 :=
      Nat.exists_eq_add_of_le' (Nat.le_trans (Nat.le_add_right 1 _) hdepth)
    rw [Formula.depth] at hdepth
    have hf : Written (a.render levels).toList f.tokens := ihf ha (by omega)
    have hg : Written (b.render levels).toList g.tokens := ihg hb (by omega)
    have hleft := ha.written_operand hf op.strength
    have hright := hb.written_operand hg (op.strength + 1)
    have htokens : (Formula.joined op f g).tokens =
        f.tokensAt op.strength ++ [op.token] ++ g.tokensAt (op.strength + 1) := by
      rw [List.append_assoc]
      rfl
    rw [toList_render_joined hkind, htokens]
    exact hleft.joined op hright

/-- The tokens of a decision on a formula. -/
theorem tokenize_decision (h : n.HasForm f) (hdepth : f.depth ≤ maxTreeDepth) :
    (tokenize {} ("if " ++ n.text ++ " then win end")).1.map Token.kind =
        .kwIf :: f.tokens ++ [.kwThen, .verdict .win, .kwEnd, .eof] ∧
      (∀ k ∈ .kwIf :: f.tokens ++ [.kwThen, .verdict .win, .kwEnd, .eof],
        k.isSignificant = true) ∧
      (tokenize {} ("if " ++ n.text ++ " then win end")).2 = [] := by
  have hn : Written n.text.toList f.tokens := h.written hdepth
  have hif : Spells AtWordEnd ['i', 'f'] [.kwIf] :=
    spells_keyword ⟨rfl, fun _ => rfl⟩ rfl rfl rfl (by simp)
  have hthen : Spells AtWordEnd ['t', 'h', 'e', 'n'] [.kwThen] :=
    spells_keyword ⟨rfl, fun _ => rfl⟩ rfl rfl rfl (by simp)
  have hwin : Spells AtWordEnd ['w', 'i', 'n'] [.verdict .win] :=
    spells_keyword ⟨rfl, fun _ => rfl⟩ rfl rfl rfl (by simp)
  have hend : Spells AtWordEnd ['e', 'n', 'd'] [.kwEnd] :=
    spells_keyword ⟨rfl, fun _ => rfl⟩ rfl rfl rfl (by simp)
  have hchars : ("if " ++ n.text ++ " then win end").toList =
      ['i', 'f'] ++ [' '] ++ n.text.toList ++ [' '] ++ ['t', 'h', 'e', 'n'] ++ [' '] ++
        ['w', 'i', 'n'] ++ [' '] ++ ['e', 'n', 'd'] := by
    simp
  have hblank (rest : List Char) : AtWordEnd ([' '] ++ rest) :=
    atWordEnd_cons (by decide) rest
  -- Words end at the blanks behind them, and blanks at what stands behind those.
  have hspells := hif.append spells_blank (fun rest _ => hblank rest)
    |>.append hn.spells (fun rest _ => hn.before (fun _ hc => hc.1) rest)
    |>.append spells_blank (fun rest _ => hblank rest)
    |>.append hthen (fun rest _ => before_append (by rfl) _ rest)
    |>.append spells_blank (fun rest _ => hblank rest)
    |>.append hwin (fun rest _ => before_append (by rfl) _ rest)
    |>.append spells_blank (fun rest _ => hblank rest)
    |>.append hend (fun rest _ => before_append (by rfl) _ rest)
  rw [← hchars] at hspells
  obtain ⟨htokens, herrors⟩ := tokenize_of_spells hspells (before_nil _)
  refine ⟨?_, ?_, herrors⟩
  · simpa using htokens
  · have hkinds := List.forall_mem_append.2
      ⟨hspells.significant, List.forall_mem_singleton.2 (rfl : TokenKind.eof.isSignificant = true)⟩
    simpa using hkinds

end Trees

end Rulebook
