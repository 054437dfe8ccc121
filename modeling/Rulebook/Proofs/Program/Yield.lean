import Rulebook.Proofs.Program.Streamed

/-!
# Trees that parses yield

Expressions have no rules in them, since a rule is read only where an item begins. Each production
checks that what it read finds room below the root and the enclosing rules, so the tree of a source
is never too deep, however malformed the source is.

## Main definitions

* `Trees.ruleFree`: there are no rules among the operands of foldable nodes
* `Parse.FitsRoot`: a tree of a depth that checks and folding accept, without rules among operands

## Main results

* `Program.exists_root`: a parse comes to such a tree
* `Program.depth_parse_le`: the trees of sources are of bounded depth
-/

namespace Rulebook

/-- Expressions have no rules in them, so that items have none among their operands. -/
def Trees.ruleFree (kinds : TokenKind → Prop) : Trees kinds where
  expr := Node.RuleFree
  item := Node.RuleFreeOperands
  expr_withSpan := Node.ruleFree_withSpan.2
  item_withSpan := Node.ruleFreeOperands_withSpan.2
  expr_formed h := .linked h.rule?_eq h.of_mem
  item_expr := Node.RuleFree.operands
  item_block hns := .linked rfl hns
  item_rule _ h := .linked rfl (by simpa [Kind.operands, Kind.slots] using h)

namespace Parse

/-- A tree of a depth that checks and folding accept, without rules among operands. -/
def FitsRoot (n : Node) : Prop :=
  n.RuleFreeOperands ∧ n.depth ≤ maxTreeDepth

/-- What is read as a statement has no rules in it. -/
theorem ruleFree_statement {settings : ParseSettings} {levels : Nat} {s t : ParseState} {n : Node}
    (hs : Terminated (s.current :: s.rest))
    (hrun : EStateM.run (statement settings (expr settings levels)) s = .ok n t) : n.RuleFree := by
  have hends := Agrees.self (statement_agrees (Trees.ruleFree fun _ => True) (.refl _ settings)
    TokenSource.tracks_list True levels) (plain_of_terminated hs)
  rw [hrun] at hends
  cases hends with
  | ok _ _ _ _ hn => exact hn.1.2

/-- A parse comes to a tree that finds room, outside of all productions and rules. -/
theorem fitsRoot_of_run {settings : ParseSettings} {s t : ParseState} {n : Node}
    (hs : Terminated (s.current :: s.rest)) (hnesting : s.nesting = 0)
    (hrun : EStateM.run (root settings) s = .ok n t) :
    FitsRoot n ∧ t.depth = s.depth ∧ t.nesting = s.nesting := by
  have hends := root_agrees (Trees.ruleFree fun _ => True) (.refl _ settings)
    TokenSource.tracks_list s s (.refl s) (plain_of_terminated hs) hnesting (Nat.le_refl _) trivial
  rw [hrun] at hends
  cases hends with
  | ok _ hleads _ _ hn =>
    refine ⟨⟨hn.1.1, ?_⟩, hleads.depth, hleads.nesting⟩
    calc n.depth = 1 + Node.tallest n.childNodes := n.depth_eq
      _ ≤ 1 + heightLimit 0 := Nat.add_le_add_left (Node.tallest_le hn.2) 1
      _ = maxTreeDepth := by decide

end Parse

/-! ## Programs -/

namespace Program

variable (scan : ScanSettings) (maxDepth : Nat) (source : String) (next : NodeId)

/-- A parse comes to a root, which is the tree of the program. -/
theorem exists_root : ∃ root s,
    EStateM.run (Parse.root ⟨scan.golf, maxDepth⟩) (.ofTokens (tokenize scan source).1 next) =
        .ok root s ∧
      (parse scan maxDepth source next).1.tree = root ∧ Parse.FitsRoot root := by
  obtain ⟨root, s, hrun, htree⟩ := exists_run scan maxDepth source next
  exact ⟨root, s, hrun, htree, (Parse.fitsRoot_of_run (terminated_ofTokens scan source next)
    (ParseState.start_ofTokens _ next).2.1 hrun).1⟩

/-- **Trees that are read from sources are not too deep.** For any source, however malformed, a
parse comes to a root, and checks, folding and evaluation accept its depth. -/
theorem depth_parse_le : ∃ root s,
    EStateM.run (Parse.root ⟨scan.golf, maxDepth⟩) (.ofTokens (tokenize scan source).1 next) =
        .ok root s ∧
      (parse scan maxDepth source next).1.tree = root ∧ root.depth ≤ maxTreeDepth := by
  obtain ⟨root, s, h, htree, hroot⟩ := exists_root scan maxDepth source next
  exact ⟨root, s, h, htree, hroot.2⟩

/-- Trees that are read from sources have no rules among the operands of foldable nodes. -/
theorem ruleFreeOperands_parse : (parse scan maxDepth source next).1.tree.RuleFreeOperands := by
  obtain ⟨root, s, -, htree, hroot⟩ := exists_root scan maxDepth source next
  rw [htree]
  exact hroot.1

end Program

end Rulebook
