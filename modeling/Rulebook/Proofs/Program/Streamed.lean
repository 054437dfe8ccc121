import Rulebook.Program
import Rulebook.Proofs.Program.Agreement
import Rulebook.Proofs.Token.Stream

/-!
# Parses of streams

A program is read from a stream that scans its source as tokens are needed, and a few tokens ahead
of their turn where a parse looks at what stands behind a name. It is the same as if the whole
source had been taken apart into a list of tokens before. At the end of the parse all errors of the
source have been noted, since the end is its current token.

## Main definitions

* `TokenStream.Offers`: what tokens of a source a stream has still to hand out

## Main results

* `TokenStream.tracks_offers`: a stream hands out the tokens of its source
* `Program.exists_run`: a parse of a stream comes to the same as a parse of a list
* `Program.parse_eq`: a program is read from the list of the tokens of its source
-/

namespace Rulebook

/-! ## Streams -/

namespace TokenStream

section Offers

variable {scan : ScanSettings} {source : String} {tokens rest : List Token} {t : Token}
  {s : TokenStream} {n : Nat}

/-- What tokens of a source a stream has still to hand out, behind some that were taken. -/
def Offers (scan : ScanSettings) (source : String) (tokens : List Token) (s : TokenStream) : Prop :=
  ∃ n, s.Ready scan ⟨{}, source.toList⟩ n ∧ tokens = (tokenize scan source).1.drop n

theorem offers_ofSource (scan : ScanSettings) (source : String) :
    Offers scan source (tokenize scan source).1 (ofSource scan source) :=
  ⟨0, ready_ofSource scan source, rfl⟩

theorem nth_of_drop_cons (h : (tokenize scan source).1.drop n = t :: rest) :
    Cursor.nth ⟨{}, source.toList⟩ scan n = t := by
  obtain ⟨front, last, htokens, -, -, hnth, -⟩ := Cursor.exists_nth scan source
  have hget : (tokenize scan source).1[n]? = some t := by
    rw [← List.head?_drop, h]
    rfl
  rw [hnth]
  rw [htokens] at hget
  rcases Nat.lt_or_ge n front.length with hlt | hge
  · rw [List.getElem?_append_left hlt] at hget
    rw [hget]
    rfl
  · rw [List.getElem?_append_right hge] at hget
    rw [List.getElem?_eq_none hge]
    exact (List.mem_singleton.1 (List.mem_of_getElem? hget)).symm

/-- Behind its last token a stream hands out the end again. -/
theorem kind_nth_of_drop_nil (h : (tokenize scan source).1.drop n = []) :
    (Cursor.nth ⟨{}, source.toList⟩ scan n).kind = .eof := by
  obtain ⟨front, last, htokens, hlast, -, hnth, -⟩ := Cursor.exists_nth scan source
  have hle : front.length + 1 ≤ n := by
    rw [htokens, List.drop_eq_nil_iff, List.length_append] at h
    exact h
  rw [hnth, List.getElem?_eq_none (Nat.le_of_succ_le hle)]
  exact hlast

theorem fetch_of_isSignificant (h : s.next.1.kind.isSignificant = true) : s.fetch = s.next := by
  rw [fetch]
  simp [h]

theorem fetch_of_not (h : ¬s.next.1.kind.isSignificant = true) : s.fetch = s.next.2.fetch := by
  rw [fetch]
  simp [h]

/-- The next token that matters is that of the list. -/
theorem Offers.fetch (h : Offers scan source tokens s)
    (hnext : nextSignificant? tokens = some (t, rest)) :
    s.fetch.1 = t ∧ Offers scan source rest s.fetch.2 := by
  induction tokens generalizing s with
  | nil => cases hnext
  | cons u tokens ih =>
    -- The stream scans on where the list goes on, whether or not the token matters.
    obtain ⟨n, hready, hdrop⟩ := h
    obtain ⟨htoken, hready'⟩ := hready.next
    have hu : s.next.1 = u := htoken.trans (nth_of_drop_cons hdrop.symm)
    have hbehind : Offers scan source tokens s.next.2 :=
      ⟨n + 1, hready', by rw [← List.tail_drop, ← hdrop, List.tail_cons]⟩
    rw [nextSignificant?] at hnext
    split at hnext
    · next hsignificant =>
      cases hnext
      rw [fetch_of_isSignificant (hu ▸ hsignificant)]
      exact ⟨hu, hbehind⟩
    · next hnot =>
      rw [fetch_of_not (hu ▸ hnot)]
      exact ih hbehind hnext

/-- A look ahead finds what it would find in the list. -/
theorem Offers.peekKindFrom {k m : Nat} (h : Offers scan source tokens s) (hpos : 1 ≤ k)
    (hlimit : k + m ≤ lookaheadLimit + 1) :
    (s.peekKindFrom k m).1 = (((tokens.drop (k - 1)).take m).find? (·.kind.isSignificant)).elim
        .eof Token.kind ∧
      Offers scan source tokens (s.peekKindFrom k m).2 := by
  induction m generalizing k s with
  | zero => exact ⟨rfl, h⟩
  | succ m ih =>
    obtain ⟨n, hready, rfl⟩ := h
    obtain ⟨htoken, hready'⟩ := hready.peek hpos (by omega)
    have hbehind : Offers scan source ((tokenize scan source).1.drop n) (s.peek k).2 :=
      ⟨n, hready', rfl⟩
    rw [TokenStream.peekKindFrom]
    dsimp only
    rw [htoken]
    cases hdrop : (tokenize scan source).1.drop (n + (k - 1)) with
    | nil =>
      -- The list has run out, but a stream goes on with the end, which matters and ends the look.
      have heof := kind_nth_of_drop_nil hdrop
      rw [List.drop_drop, hdrop, heof]
      exact ⟨rfl, hbehind⟩
    | cons t rest =>
      have hrest : ((tokenize scan source).1.drop n).drop (k + 1 - 1) = rest := by
        rw [List.drop_drop, Nat.add_sub_cancel, ← (List.tail_cons : (t :: rest).tail = rest),
          ← hdrop, List.tail_drop]
        congr 1
        omega
      rw [nth_of_drop_cons hdrop, List.drop_drop, hdrop, List.take_succ_cons, List.find?_cons]
      split
      · next hsignificant =>
        rw [hsignificant]
        exact ⟨rfl, hbehind⟩
      · next hnot =>
        rw [Bool.eq_false_iff.2 hnot, ← hrest]
        exact ih hbehind (Nat.le_add_left 1 k) (by omega)

/-- A stream hands out the tokens of its source. -/
theorem tracks_offers (scan : ScanSettings) (source : String) :
    TokenSource.Tracks TokenStream (Offers scan source) where
  fetch h hnext := by
    obtain ⟨rfl, hrest⟩ := h.fetch hnext
    exact ⟨_, rfl, hrest⟩
  peek h := by
    obtain ⟨hkind, hrest⟩ := h.peekKindFrom (Nat.le_refl 1) (Nat.le_of_eq (Nat.add_comm _ _))
    refine ⟨hkind.trans ?_, hrest⟩
    rw [lookahead, Nat.sub_self, List.drop_zero]
    cases List.find? _ _ <;> rfl
  bound {_ s} h := by
    obtain ⟨n, hready, rfl⟩ := h
    obtain ⟨front, last, htokens, -, -, -, hlength⟩ := Cursor.exists_nth scan source
    have hlength := hlength (n + s.ahead.length)
    rw [← hready.cursor] at hlength
    show _ ≤ s.ahead.length + s.cursor.rest.length + 1
    rw [htokens, List.length_drop, List.length_append, List.length_singleton]
    omega

/-- When the end was taken, all errors were noted. -/
theorem Offers.errors (h : Offers scan source [] s) :
    s.errors.toList = (tokenize scan source).2 := by
  obtain ⟨n, hready, hdrop⟩ := h
  obtain ⟨front, last, htokens, hlast, -, hnth, -⟩ := Cursor.exists_nth scan source
  have hle : front.length + 1 ≤ n := by
    rw [eq_comm, htokens, List.drop_eq_nil_iff, List.length_append] at hdrop
    exact hdrop
  rw [hready.errors_eq hnth hlast, errors_of_eq_concat htokens hlast, List.take_of_length_le]
  omega

end Offers

end TokenStream

/-! ## Programs -/

namespace Program

variable {scan : ScanSettings} {maxDepth : Nat} {source : String} {next : NodeId} {root : Node}
  {s : ParseState}

theorem terminated_ofTokens (scan : ScanSettings) (source : String) (next : NodeId) :
    Terminated ((ParseState.ofTokens (tokenize scan source).1 next).current ::
      (ParseState.ofTokens (tokenize scan source).1 next).rest) := by
  obtain ⟨t, rest, hnext, hterminated, -⟩ := (terminated_tokenize scan source).exists_next
  rw [ParseState.ofTokens_eq hnext]
  exact hterminated

/-- **A program is read from the list of the tokens of its source.** Its stream comes to the same
root as a parse of the list, and its errors are those of the scan and those of the parse. -/
theorem parse_eq
    (h : EStateM.run (Parse.root ⟨scan.golf, maxDepth⟩)
      (.ofTokens (tokenize scan source).1 next) = .ok root s) :
    parse scan maxDepth source next =
      (⟨root, (tokenize scan source).2 ++ s.errors.toList⟩, s.nextId) := by
  have hstart := terminated_ofTokens scan source next
  obtain ⟨_, _, hrun, heof, hs⟩ := Parse.root_stops ⟨scan.golf, maxDepth⟩ hstart
  obtain ⟨rfl, rfl⟩ : _ ∧ _ := EStateM.Result.ok.inj (hrun.symm.trans h)
  have hR := TokenStream.tracks_offers scan source
  have hends := Parse.root_agrees (Trees.any fun _ => True) (.refl _ ⟨scan.golf, maxDepth⟩) hR _ _
    (ParseState.mirrors_ofTokens hR (TokenStream.offers_ofSource scan source)
      (terminated_tokenize scan source) next)
    (Parse.plain_of_terminated hstart) (ParseState.start_ofTokens _ next).2.1 (Nat.le_refl _)
    trivial
  rw [h] at hends
  generalize hstream : EStateM.run _ (ParseState.ofTokens (TokenStream.ofSource scan source) next) =
    r at hends
  cases hends with
  | @ok _ t' _ _ hm _ _ _ hq =>
    obtain ⟨⟨-, rfl⟩, -⟩ := hq
    -- The end is current and the list is empty, so the stream has scanned the whole source.
    have hrest := hm.rest
    rw [hs.eq_nil heof] at hrest
    rw [EStateM.run] at hstream
    rw [parse, hstream]
    dsimp only
    rw [hrest.errors, hm.errors, hm.nextId]

/-- A parse comes to a root, which is the tree of the program. -/
theorem exists_run (scan : ScanSettings) (maxDepth : Nat) (source : String) (next : NodeId) :
    ∃ root s, EStateM.run (Parse.root ⟨scan.golf, maxDepth⟩)
          (.ofTokens (tokenize scan source).1 next) = .ok root s ∧
      (parse scan maxDepth source next).1.tree = root := by
  obtain ⟨root, s, h⟩ := Parse.root_total ⟨scan.golf, maxDepth⟩
    (.ofTokens (tokenize scan source).1 next)
  exact ⟨root, s, h, by rw [parse_eq h]⟩

end Program

end Rulebook
