import Rulebook.Proofs.Program.Sourced
import Rulebook.Proofs.Program.Trivia

/-!
# Golf mode extends the grammar

Golf mode adds six letters for verdicts and an operator that is spelled with a question mark and a
colon. It takes nothing away: a source that has no errors without it and none of the letters among
its names has none with it either, and is the same tree.

A production that is not given such a letter does the same in both modes. Without errors no question
mark is directly in front of a colon, which is where golf mode would take the source apart
differently: a question mark is taken in one place only, and what is read behind it cannot begin
with a colon.

## Main definitions

* `TokenKind.Unlettered`, `Node.Unlettered`: no golf letter
* `Trees.unlettered`: productions make no golf letters of other tokens

## Main results

* `Parted.of_significant`, `tokenize_golf`: where question marks and colons are parted, golf mode
  makes no difference to the tokens
* `Program.root_golf`: on such a source the grammar does the same in both modes, and question marks
  and colons are parted
* `Program.parse_golf`: golf mode is a conservative extension
-/

namespace Rulebook

open Parse

section Scans

variable {scan : ScanSettings} {source : String}

/-- Tokens that stand side by side in a source do so as well once trivia are left out. -/
theorem Parted.of_significant {tokens : List Token} (h : Parted (significant tokens)) :
    Parted tokens := by
  induction tokens with
  | nil => exact .nil
  | cons t tokens ih =>
    by_cases ht : t.kind.isSignificant = true
    · -- A colon directly behind the token would be significant too, so it would still be there.
      rw [significant_of_pos ht] at h
      have htokens : Parted tokens := ih h.tail
      cases tokens with
      | nil => exact .singleton t
      | cons u tokens =>
        refine List.isChain_cons_cons.2 ⟨fun hquestion hcolon => ?_, htokens⟩
        rw [significant_of_pos (t := u) (by rw [hcolon]; rfl)] at h
        exact (List.isChain_cons_cons.1 h).1 hquestion hcolon
    · rw [significant_of_neg ht] at h
      have htokens : Parted tokens := ih h
      cases tokens with
      | nil => exact .singleton t
      | cons u tokens =>
        refine List.isChain_cons_cons.2 ⟨fun hquestion => absurd ?_ ht, htokens⟩
        rw [hquestion]
        rfl

/-- Where question marks and colons are parted, golf mode makes no difference to the tokens. -/
theorem tokenize_golf (hplain : scan.golf = false)
    (h : Parted (significant (tokenize scan source).1)) :
    tokenize { scan with golf := true } source = tokenize scan source := by
  rw [tokenize_eq, hplain, significant_kept] at h
  rw [tokenize_eq, tokenize_eq, hplain, Cursor.scanAll_golf h.of_significant]
  rfl

end Scans

/-! ## Golf letters -/

section Letters

variable {golf golf' : Bool} {maxDepth : Nat}

/-- A token is no name that stands for a verdict in golf mode. -/
def TokenKind.Unlettered (k : TokenKind) : Prop :=
  ∀ name, k = .identifier name → Verdict.ofLetter? name = none

/-- There are no other golf letters. -/
theorem TokenKind.unlettered_of_forall {k : TokenKind}
    (h : ∀ letter ∈ ["W", "L", "D", "S", "F", "P"], k ≠ .identifier letter) : k.Unlettered := by
  rintro name rfl
  unfold Verdict.ofLetter?
  split
  all_goals first
    | rfl
    | exact absurd rfl (h _ (by decide))

/-- The root of a tree is no name that stands for a verdict in golf mode. -/
def Node.Unlettered (n : Node) : Prop :=
  ∀ name, n.kind = .identifier name → Verdict.ofLetter? name = none

theorem TokenKind.inContext_eq {k : TokenKind} (h : k.Unlettered) (golf : Bool)
    (context : ReadContext) : k.inContext golf context = k := by
  cases k with
  | identifier name => simp [TokenKind.inContext, h name rfl]
  | _ => rfl

theorem Parse.golfVerdict?_eq_none (settings : ParseSettings) {name : String}
    (h : Verdict.ofLetter? name = none) : golfVerdict? settings name = none := by
  rw [golfVerdict?, h]
  split <;> rfl

/-- No new node is a golf letter if none of the tokens is one. -/
def Trees.unlettered : Trees TokenKind.Unlettered where
  expr := Node.Unlettered
  item _ := True
  expr_withSpan h := h
  item_withSpan := id
  expr_formed h name hname := by
    cases h with
    | identifier h =>
      cases hname
      exact h _ rfl
    | _ => cases hname
  item_expr _ := trivial
  item_block _ := trivial
  item_rule _ _ := trivial

/-- Tokens and nodes that are no golf letters are read alike in both modes. -/
theorem sameMode_golf (golf golf' : Bool) (maxDepth : Nat) :
    Trees.unlettered.SameMode ⟨golf, maxDepth⟩ ⟨golf', maxDepth⟩ where
  maxDepth := rfl
  read h context := (TokenKind.inContext_eq h golf' context).trans
    (TokenKind.inContext_eq h golf context).symm
  letter h hname := (Parse.golfVerdict?_eq_none _ (h _ hname)).trans
    (Parse.golfVerdict?_eq_none _ (h _ hname)).symm

end Letters

namespace Program

/-- A source without golf letters and without errors is read alike in both modes, and its question
marks and colons are parted. -/
theorem root_golf {scan : ScanSettings} {maxDepth : Nat} {source : String} {next : NodeId}
    (golf : Bool) (hletters : ∀ t ∈ (tokenize scan source).1, t.kind.Unlettered)
    (hfaultless : (parse scan maxDepth source next).1.errors = []) :
    ∃ tree t,
      EStateM.run (root ⟨scan.golf, maxDepth⟩) (.ofTokens (tokenize scan source).1 next) =
          .ok tree t ∧
        EStateM.run (root ⟨golf, maxDepth⟩) (.ofTokens (tokenize scan source).1 next) =
          .ok tree t ∧
        (tokenize scan source).2 = [] ∧ t.errors = #[] ∧
        Parted (significant (tokenize scan source).1) := by
  obtain ⟨first, rest, hnext, hfront, hsignificant⟩ := (terminated_tokenize scan source).exists_next
  have hstart := ParseState.ofTokens_eq hnext next
  have hterminated := terminated_ofTokens scan source next
  obtain ⟨tree, t, hrun, heof, ht⟩ := root_stops ⟨scan.golf, maxDepth⟩ hterminated
  have hends := root_agrees Trees.unlettered (sameMode_golf scan.golf golf maxDepth)
    TokenSource.tracks_list _ _ (.refl _)
    ⟨hterminated, ParseState.supplied_ofTokens next (fun _ h => nomatch h) hletters⟩
    (ParseState.start_ofTokens _ next).2.1 (Nat.le_refl _) trivial
  rw [hrun] at hends
  generalize EStateM.run (root ⟨golf, maxDepth⟩ : Parse Node) _ = r at hends ⊢
  -- No error was noted on the way to the end, so what is in front of the end is parted.
  have hnone : (tokenize scan source).2 = [] ∧ t.errors.toList = [] := by
    rw [parse_eq hrun] at hfaultless
    exact List.append_eq_nil_iff.1 hfaultless
  have herrors : t.errors = #[] := Array.toList_eq_nil_iff.1 hnone.2
  cases hends with
  | ok hm _ _ hclears hq =>
    have hend : Parted t.supply := by
      rw [ParseState.supply, ht.eq_nil heof]
      exact .singleton _
    have hparted := hclears trivial (by rw [herrors]; exact Nat.zero_le _) hend
    rw [hstart, ParseState.supply, ← hsignificant] at hparted
    exact ⟨tree, t, hrun, by rw [← hq.1.2, hm.eq], hnone.1, herrors, hparted⟩

/-- **Golf mode is a conservative extension.** If a source has no errors without golf mode, and
none of its names is a golf letter, then it has no errors in golf mode, and its tree is equal. -/
theorem parse_golf (scan : ScanSettings) (maxDepth : Nat) (source : String) (i j : NodeId)
    (hplain : scan.golf = false)
    (hletters : ∀ t ∈ (tokenize scan source).1, ∀ letter ∈ ["W", "L", "D", "S", "F", "P"],
      t.kind ≠ .identifier letter)
    (hfaultless : (parse scan maxDepth source i).1.errors = []) :
    (parse { scan with golf := true } maxDepth source j).1.errors = [] ∧
      (parse scan maxDepth source i).1.tree.same
        (parse { scan with golf := true } maxDepth source j).1.tree := by
  obtain ⟨tree, t, hrun, hgolf, hlexical, herrors, hparted⟩ :=
    root_golf true (fun t ht => TokenKind.unlettered_of_forall (hletters t ht)) hfaultless
  -- Identities are issued from another one on.
  have hlevel : ParseState.Level (.ofTokens (tokenize scan source).1 i)
      (.ofTokens (tokenize scan source).1 j) := level_ofTokens rfl rfl i j
  obtain ⟨_, tree', _, t', hrun', hrun'', hsame, herrors'⟩ := root_level ⟨true, maxDepth⟩ hlevel
  cases hgolf.symm.trans hrun'
  have htokens := tokenize_golf hplain hparted
  have hparse : parse { scan with golf := true } maxDepth source j = (⟨tree', []⟩, t'.nextId) := by
    rw [parse_eq (by rw [htokens]; exact hrun''), htokens, hlexical, herrors', herrors]
    rfl
  rw [parse_eq hrun, hparse]
  exact ⟨rfl, hsame⟩

/-- A choice, a call, an assignment, and names in the place of consequences. -/
theorem parse_golf_choice :
    (parse { golf := true } 256 "if a ? win : f() then y = Won else L1 end" default).1.errors = [] ∧
      (parse {} 256 "if a ? win : f() then y = Won else L1 end" default).1.tree.same
        (parse { golf := true } 256 "if a ? win : f() then y = Won else L1 end" default).1.tree :=
  parse_golf {} 256 _ default default rfl (by decide +kernel) (by decide +kernel)

end Program

end Rulebook
