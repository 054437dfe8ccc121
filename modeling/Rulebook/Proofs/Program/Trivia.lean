import Rulebook.Proofs.Program.Shape
import Rulebook.Proofs.Program.Streamed

/-!
# Trivia that are kept

A scan may leave blanks, line ends and comments out or keep them. A parse passes over those that
were kept, other than in a look ahead behind a name, which counts them: behind three of them it
finds nothing. So two scans of a source are parsed alike if a look ahead behind each name finds the
same in both.

## Main results

* `significant_tokenize`: scans find the same significant tokens, and the same errors
* `Program.parse_trivia`: scans with the same in sight are parsed to equal trees and the same errors
* `Program.parse_trivia_distant`: a call whose parenthesis is out of sight
-/

namespace Rulebook

open Parse

section Scans

variable {scan scan' : ScanSettings}

/-- Tokens that are left out are not significant. -/
theorem significant_kept (scan : ScanSettings) (tokens : List Token) :
    significant (Cursor.kept scan tokens) = significant tokens := by
  have hkeeps (t : Token) (h : t.kind.isSignificant = true) : scan.skips t.kind = false := by
    cases hkind : t.kind <;> simp_all [ScanSettings.skips, TokenKind.isSignificant,
      TokenKind.isTrivia]
  rw [significant, Cursor.kept, List.filter_filter, significant]
  refine List.filter_congr fun t _ => ?_
  cases h : t.kind.isSignificant with
  | true => rw [hkeeps t h]; rfl
  | false => rfl

/-- Scans of a source find the same significant tokens, and the same errors. -/
theorem significant_tokenize (hgolf : scan'.golf = scan.golf) (source : String) :
    significant (tokenize scan' source).1 = significant (tokenize scan source).1 ∧
      (tokenize scan' source).2 = (tokenize scan source).2 := by
  rw [tokenize_eq, tokenize_eq, hgolf]
  refine ⟨?_, rfl⟩
  rw [significant_kept, significant_kept]

/-- Parses of two scans begin level if a look ahead behind each name finds the same in both. -/
theorem level_ofTokens (hgolf : scan'.golf = scan.golf) {source : String}
    (hsights : sights (tokenize scan' source).1 = sights (tokenize scan source).1)
    (i j : NodeId) : ParseState.Level (.ofTokens (tokenize scan source).1 i)
      (.ofTokens (tokenize scan' source).1 j) := by
  obtain ⟨t, rest, hnext, hterminated, hsignificant⟩ :=
    (terminated_tokenize scan source).exists_next
  obtain ⟨t', rest', hnext', hterminated', hsignificant'⟩ :=
    (terminated_tokenize scan' source).exists_next
  have hcons : t' :: significant rest' = t :: significant rest := by
    rw [← hsignificant, ← hsignificant', (significant_tokenize hgolf source).1]
  obtain ⟨rfl, hrest⟩ := List.cons.inj hcons
  rw [sights_of_nextSignificant? hnext, sights_of_nextSignificant? hnext'] at hsights
  rw [ParseState.ofTokens_eq hnext, ParseState.ofTokens_eq hnext']
  exact ⟨rfl, hrest, rfl, rfl, rfl, hsights, hterminated, hterminated'⟩

/-- Where parses begin level, roots end on a level, unless a limit is met that the second one does
not have. -/
theorem root_endsLevel {settings settings' : ParseSettings} (hgolf : settings'.golf = settings.golf)
    (hle : settings.maxDepth ≤ settings'.maxDepth) {s s' : ParseState} (hs : s.Level s') :
    ∃ tree tree' t t', EStateM.run (root settings) s = .ok tree t ∧
      EStateM.run (root settings') s' = .ok tree' t' ∧
      EndsLevel settings settings' s.left s Node.Alike (.ok tree t) (.ok tree' t') := by
  obtain ⟨tree, t, hrun⟩ := root_total settings s
  obtain ⟨tree', t', hrun'⟩ := root_total settings' s'
  have hakin (n : Nat) : Akin settings settings' True n n .nothing Node.Alike (root settings)
      (root settings') := root_akin hgolf hle
  have hends := (hakin _).endsLevel hle hs (Nat.le_refl _) trivial
  rw [hrun, hrun'] at hends
  exact ⟨tree, tree', t, t', hrun, hrun', hends⟩

/-- Where parses begin level, sources are read to equal trees and the same errors. -/
theorem root_level (settings : ParseSettings) {s s' : ParseState} (hs : s.Level s') :
    ∃ tree tree' t t', EStateM.run (root settings) s = .ok tree t ∧
      EStateM.run (root settings) s' = .ok tree' t' ∧ tree.Alike tree' ∧ t'.errors = t.errors := by
  obtain ⟨tree, tree', t, t', hrun, hrun', hends⟩ := root_endsLevel rfl (Nat.le_refl _) hs
  rcases hends with hlevel | ⟨hlt, -⟩
  · cases hlevel with
    | ok hlevel _ _ hsame => exact ⟨tree, tree', t, t', hrun, hrun', hsame, hlevel.errors⟩
  · exact absurd hlt (Nat.lt_irrefl _)

end Scans

namespace Program

/-- **Trivia that are kept do not matter, other than between a name and what is in sight behind
it.** If two scans of a source, with golf letters in both or in none, have the same in sight behind
each name, then their parses come to equal trees and the same errors. -/
theorem parse_trivia (scan scan' : ScanSettings) (maxDepth : Nat) (source : String) (i j : NodeId)
    (hgolf : scan'.golf = scan.golf)
    (hsights : sights (tokenize scan' source).1 = sights (tokenize scan source).1) :
    (parse scan maxDepth source i).1.tree.same (parse scan' maxDepth source j).1.tree ∧
      (parse scan' maxDepth source j).1.errors = (parse scan maxDepth source i).1.errors := by
  obtain ⟨tree, tree', t, t', hrun, hrun', hsame, herrors⟩ :=
    root_level ⟨scan.golf, maxDepth⟩ (level_ofTokens hgolf hsights i j)
  have hlexical := (significant_tokenize hgolf source).2
  rw [parse_eq hrun, parse_eq (by rwa [hgolf]), hlexical, herrors]
  exact ⟨hsame, rfl⟩

/-- A comment between a name and its parenthesis, and another one between a name and its sign. -/
theorem parse_trivia_near :
    (parse {} 256 "if f /**/() then x /**/= 1 end" default).1.tree.same
        (parse { skipBlanks := false, skipComments := false } 256
          "if f /**/() then x /**/= 1 end" default).1.tree ∧
      (parse { skipBlanks := false, skipComments := false } 256
          "if f /**/() then x /**/= 1 end" default).1.errors =
        (parse {} 256 "if f /**/() then x /**/= 1 end" default).1.errors :=
  parse_trivia {} { skipBlanks := false, skipComments := false } 256 _ default default rfl
    (by decide +kernel)

/-- A look ahead counts three trivia between a name and its parenthesis, and finds nothing. -/
theorem parse_trivia_distant :
    (parse {} 256 "f \n \n ()" default).1.errors = [] ∧
      (parse { skipBlanks := false } 256 "f \n \n ()" default).1.errors ≠ [] ∧
      (parse {} 256 "f \n \n ()" default).1.tree.same
        (parse { skipBlanks := false } 256 "f \n \n ()" default).1.tree = false := by
  decide +kernel

end Program

end Rulebook
