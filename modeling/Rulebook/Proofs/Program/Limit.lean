import Rulebook.Proofs.Program.Trivia

/-!
# Limits of nesting

A parse refuses productions that are nested more deeply than its limit allows, and reports where it
did. A parse that reports nothing of the kind never asked for its limit: it would have come to the
same under any higher one, also where statements are malformed and the parse recovered behind them.

## Main results

* `Parse.root_raised`: a root that is not refused anywhere is read alike under a higher limit
* `Program.parse_raised`: so is a source that has no errors of nesting
-/

namespace Rulebook

open Parse

section Roots

variable {settings settings' : ParseSettings}

/-- Where parses begin level, a root is read alike under a higher limit, unless the lower one is
reported. -/
theorem Parse.root_raised (hgolf : settings'.golf = settings.golf)
    (hle : settings.maxDepth ≤ settings'.maxDepth) {s s' : ParseState} (hs : s.Level s') :
    ∃ tree tree' t t', EStateM.run (root settings) s = .ok tree t ∧
      EStateM.run (root settings') s' = .ok tree' t' ∧
      (.tooDeep "parser" settings.maxDepth ∉ t.errors →
        tree.Alike tree' ∧ t'.errors = t.errors) := by
  obtain ⟨tree, tree', t, t', hrun, hrun', hends⟩ := root_endsLevel hgolf hle hs
  refine ⟨tree, tree', t, t', hrun, hrun', fun hquiet => ?_⟩
  rcases hends with hlevel | ⟨-, hreveals⟩
  · cases hlevel with
    | ok hlevel _ _ halike => exact ⟨halike, hlevel.errors⟩
  · exact absurd hreveals hquiet

end Roots

namespace Program

/-- **A higher limit of nesting changes nothing for a source that keeps below the lower one.** If a
parse reports no error of nesting, then a parse under a higher limit comes to an equal tree and to
the same errors, wherever the source is malformed. -/
theorem parse_raised (scan : ScanSettings) (limit limit' : Nat) (source : String) (i j : NodeId)
    (hle : limit ≤ limit')
    (h : ∀ e ∈ (parse scan limit source i).1.errors, e.kind ≠ .recursion) :
    (parse scan limit source i).1.tree.same (parse scan limit' source j).1.tree ∧
      (parse scan limit' source j).1.errors = (parse scan limit source i).1.errors := by
  have hlevel : ParseState.Level (.ofTokens (tokenize scan source).1 i)
      (.ofTokens (tokenize scan source).1 j) := level_ofTokens rfl rfl i j
  obtain ⟨tree, tree', t, t', hrun, hrun', hsame⟩ :=
    @root_raised ⟨scan.golf, limit⟩ ⟨scan.golf, limit'⟩ rfl hle _ _ hlevel
  rw [parse_eq hrun] at h
  have hquiet : .tooDeep "parser" limit ∉ t.errors := by
    intro he
    exact h _ (List.mem_append_right _ (Array.mem_toList_iff.2 he)) rfl
  obtain ⟨halike, herrors⟩ := hsame hquiet
  rw [parse_eq hrun, parse_eq hrun', herrors]
  exact ⟨halike, rfl⟩

/-- A statement that is malformed inside of a rule, and another one behind it: five levels are
enough. -/
theorem parse_raised_malformed :
    (parse {} 5 "rule r { x = (1 + ; skip }\nif then end\nr()" default).1.errors.length = 2 ∧
      (parse {} 5 "rule r { x = (1 + ; skip }\nif then end\nr()" default).1.tree.same
        (parse {} 256 "rule r { x = (1 + ; skip }\nif then end\nr()" default).1.tree ∧
      (parse {} 256 "rule r { x = (1 + ; skip }\nif then end\nr()" default).1.errors =
        (parse {} 5 "rule r { x = (1 + ; skip }\nif then end\nr()" default).1.errors :=
  ⟨by decide +kernel, parse_raised {} 5 256 _ default default (by decide) (by decide +kernel)⟩

end Program

end Rulebook
