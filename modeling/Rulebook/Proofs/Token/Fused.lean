import Rulebook.Proofs.Token.Tiling

/-!
# The operator that golf mode fuses

In golf mode a question mark and a colon that stand side by side are one operator. This is the
only way in which the mode changes how a source is taken apart: if no token of a source is a
question mark directly in front of a colon, the mode makes no difference to its tokens.

## Main definitions

* `Parted`: no question mark is directly in front of a colon

## Main results

* `Lexeme.ofChars_golf`: a text that does not begin with the two characters has the same lexeme
* `Cursor.scanAll_golf`: the tokens of a text are the same if question marks and colons are parted
-/

namespace Rulebook

/-- No question mark is directly in front of a colon. -/
def Parted (tokens : List Token) : Prop :=
  tokens.IsChain fun t u => t.kind = .question → u.kind ≠ .colon

theorem Parted.tail {t : Token} {tokens : List Token} (h : Parted (t :: tokens)) :
    Parted tokens :=
  List.IsChain.tail h

namespace Lexeme

section Golf

variable {c : Char} {next : Option Char} {rest : List Char}

theorem symbol?_golf (h : ¬(c = '?' ∧ next = some ':')) :
    symbol? true c next = symbol? false c next := by
  by_cases hc : c = '?'
  · subst hc
    have hnext : (next == some ':') = false := beq_eq_false_iff_ne.2 fun hn => h ⟨rfl, hn⟩
    simp only [symbol?, hnext, Bool.and_false]
  · -- Only the question mark asks for the mode.
    unfold symbol?
    split
    all_goals first
      | rfl
      | exact absurd rfl hc

/-- A text that does not begin with a question mark and a colon has the same lexeme in both
modes. -/
theorem ofChars_golf (h : ¬(c = '?' ∧ rest.head? = some ':')) :
    ofChars true (c :: rest) = ofChars false (c :: rest) := by
  simp only [ofChars, significant, symbol?_golf h]

end Golf

end Lexeme

namespace Cursor

section Golf

theorem token_golf {c : Cursor} (h : ¬∃ rest, c.rest = '?' :: ':' :: rest) :
    c.token true = c.token false ∧ c.past true = c.past false := by
  have hlexeme : c.lexeme true = c.lexeme false := by
    obtain ⟨place, rest⟩ := c
    cases rest with
    | nil => rfl
    | cons d rest =>
      refine Lexeme.ofChars_golf ?_
      rintro ⟨rfl, hhead⟩
      obtain ⟨rest, rfl⟩ := List.head?_eq_some_iff.1 hhead
      exact h ⟨rest, rfl⟩
  rw [token, token, past, past, hlexeme]
  exact ⟨rfl, rfl⟩

/-- The two characters are two tokens, one directly in front of the other. -/
theorem scanAll_of_fused {c : Cursor} {rest : List Char} (h : c.rest = '?' :: ':' :: rest) :
    ¬Parted (c.scanAll false) := by
  obtain ⟨place, chars⟩ := c
  subst h
  intro hparted
  have hquestion : (token ⟨place, '?' :: ':' :: rest⟩ false).kind = .question := rfl
  have hcolon : (token (past ⟨place, '?' :: ':' :: rest⟩ false) false).kind = .colon := rfl
  rw [scanAll_of_ne (by rw [hquestion]; simp), scanAll_of_ne (by rw [hcolon]; simp)] at hparted
  exact (List.isChain_cons_cons.1 hparted).1 hquestion hcolon

/-- If no question mark of a text is directly in front of a colon, golf mode makes no difference to
its tokens. -/
theorem scanAll_golf {c : Cursor} (h : Parted (c.scanAll false)) :
    c.scanAll true = c.scanAll false := by
  -- Induction on the length of the text, from its first lexeme on.
  induction hn : c.rest.length using Nat.strongRecOn generalizing c with
  | ind n ih =>
    have hunfused : ¬∃ rest, c.rest = '?' :: ':' :: rest := by
      rintro ⟨rest, hfused⟩
      exact scanAll_of_fused hfused h
    -- So the first lexeme is the same in both modes, and both go on behind it.
    obtain ⟨htoken, hpast⟩ := token_golf hunfused
    by_cases he : (c.token false).kind = .eof
    · rw [scanAll_of_eq he, scanAll_of_eq (by rw [htoken, he]), htoken]
    · have hlt : (c.past false).rest.length < c.rest.length :=
        length_rest_past_lt (rest_ne_nil_of_kind_ne he)
      rw [scanAll_of_ne he] at h ⊢
      rw [scanAll_of_ne (by rwa [htoken]), htoken, hpast, ih _ (hn ▸ hlt) h.tail rfl]

end Golf

end Cursor

end Rulebook
