import Rulebook.Proofs.Program.Recovery
import Rulebook.Proofs.Program.Streamed

/-!
# Sources in two parts

A source can be cut in front of a rule if the braces before it are closed and no string or block
comment goes on across the cut. The items of the whole are then those of the two parts, however
malformed these are, and there is an error in the whole if there is one in a part.

Up to the cut the parse of the whole goes abreast with that of the first part; behind it, with
that of the second one.

## Main results

* `Program.cross_stop`: a row of items up to the seam
* `Program.join_abreast`: the items behind the seam
* `Program.parse_append`: the items and errors of a source in two parts
-/

namespace Rulebook

open Parse

namespace Seam

/-! ## Seams of sources -/

section Sources

/-- The seam in front of a rule or a semicolon, to the left of which tokens are in their old
places. -/
def ofStop (stop : Token) (after : List Token) (closed : Prop)
    (h : stop.kind = .kwRule ∨ stop.kind = .semicolon) : Seam :=
  ⟨stop, after, 0, 0, closed, .inr h⟩

/-- The seam in front of a rule, where all braces are closed. -/
def ofRule (stop : Token) (after : List Token) (h : stop.kind = .kwRule) : Seam :=
  ofStop stop after True (.inl h)

/-- The seam at the end of a source that was moved to the right. -/
def ofEnd (stop : Token) (shift errors : Nat) (h : stop.kind = .eof) : Seam :=
  ⟨stop, [], shift, errors, False, .inl h⟩

/-- Tokens that other tokens follow instead of the end. -/
theorem supply_ofStop {stop last : Token} {after front rest' : List Token} {closed : Prop}
    (hstop : stop.kind = .kwRule ∨ stop.kind = .semicolon) (hlast : last.kind = .eof)
    (hrest : nextSignificant? rest' = some (stop, after))
    (hfront : ∀ t ∈ front, t.kind.IsProper ∧ t.span.start < stop.span.start) :
    (ofStop stop after closed hstop).edge.Supply (front ++ [last]) (front ++ rest') := by
  induction front with
  | nil => exact .last hlast hrest
  | cons t front ih =>
    obtain ⟨⟨hproper, hlt⟩, hfront⟩ := List.forall_mem_cons.1 hfront
    exact .cons ⟨⟨rfl, rfl⟩, hproper, fun _ => hlt⟩ (ih hfront)

/-- Tokens in front of a rule that other tokens follow instead of the end. -/
theorem supply_ofRule {stop last : Token} {after front rest' : List Token}
    (hstop : stop.kind = .kwRule) (hlast : last.kind = .eof)
    (hrest : nextSignificant? rest' = some (stop, after))
    (hfront : ∀ t ∈ front, t.kind.IsProper ∧ t.span.start < stop.span.start) :
    (ofRule stop after hstop).edge.Supply (front ++ [last]) (front ++ rest') :=
  supply_ofStop (.inl hstop) hlast hrest hfront

/-- Tokens up to the end, and the same tokens further to the right. -/
theorem exists_supply_ofEnd {shift : Nat} {last : Token} {front tokens' : List Token}
    (hlast : last.kind = .eof) (hfront : ∀ t ∈ front, t.kind.IsProper)
    (h : List.Forall₂ (Token.Shifted shift) (front ++ [last]) tokens') :
    ∃ stop, ∃ hstop : stop.kind = .eof, ∀ errors,
      (ofEnd stop shift errors hstop).edge.Supply (front ++ [last]) tokens' := by
  induction front generalizing tokens' with
  | nil =>
    obtain ⟨stop, tail, hshifted, htail, rfl⟩ := List.forall₂_cons_left_iff.1 h
    obtain rfl := List.forall₂_nil_left_iff.1 htail
    have hstop : stop.kind = .eof := hshifted.kind.trans hlast
    refine ⟨stop, hstop, fun _ => .last hlast ?_⟩
    rw [nextSignificant?, hstop]
    rfl
  | cons t front ih =>
    obtain ⟨t', tail, hshifted, htail, rfl⟩ := List.forall₂_cons_left_iff.1 h
    obtain ⟨hproper, hfront⟩ := List.forall_mem_cons.1 hfront
    obtain ⟨stop, hstop, hsupply⟩ := ih hfront htail
    exact ⟨stop, hstop, fun errors =>
      .cons ⟨hshifted, hproper, fun hne => absurd hstop hne⟩ (hsupply errors)⟩

theorem nextSignificant?_append {between behind : List Token}
    (h : ∀ t ∈ between, t.kind.isSignificant = false) :
    nextSignificant? (between ++ behind) = nextSignificant? behind := by
  induction between with
  | nil => rfl
  | cons t between ih =>
    obtain ⟨ht, hbetween⟩ := List.forall_mem_cons.1 h
    rw [List.cons_append, nextSignificant?, ht, if_neg Bool.false_ne_true, ih hbetween]

/-- There is a token that the second parse begins with. -/
theorem next_ofTokens {m : Seam} {tokens tokens' : List Token} (h : m.edge.Supply tokens tokens')
    (next : NodeId) : nextSignificant? tokens' = some
      ((ParseState.ofTokens tokens' next).current, (ParseState.ofTokens tokens' next).rest) := by
  obtain ⟨-, t', -, rest', -, ht', -⟩ := h.next
  rw [ParseState.ofTokens_eq ht', ht']

/-- A parse begins abreast with another one that is in front of the same tokens. -/
theorem abreast_ofTokens {m : Seam} {tokens tokens' : List Token} (h : m.edge.Supply tokens tokens')
    (hbraces : m.closed → openBraces 0 tokens = 0) {s' : ParseState}
    (hnext : nextSignificant? tokens' = some (s'.current, s'.rest)) (hdepth : s'.depth = 0)
    (hnesting : s'.nesting = 0) (herrors : s'.errors.size = m.errors) (next : NodeId) :
    m.Abreast 0 (ParseState.ofTokens tokens next).rest.length (.ofTokens tokens next) s' := by
  have herrors : s'.errors.size = 0 + m.errors := herrors.trans (Nat.zero_add _).symm
  obtain ⟨t, t', rest, rest', ht, ht', hplace⟩ := h.next
  obtain ⟨rfl, rfl⟩ := Prod.mk.inj (Option.some.inj (hnext.symm.trans ht'))
  rw [ParseState.ofTokens_eq ht]
  refine ⟨hdepth, hnesting, herrors, hplace, fun hclosed => ⟨0, Nat.le_refl 0, ?_⟩, Nat.le_refl _⟩
  rw [← openBraces_nextSignificant? ht, hbraces hclosed]

end Sources

end Seam

/-! ## Programs -/

namespace Program

section Parts

variable (scan : ScanSettings) (maxDepth : Nat)

/-- The items of a source from some state on. -/
def readItems (fuel : Nat) (done : List Node) : Parse (List Node) :=
  items (item ⟨scan.golf, maxDepth⟩ maxDepth) false fuel done

/-- The items of a program are those of its source, under a new parent. -/
theorem exists_readItems (source : String) (next : NodeId) {s : ParseState}
    (hs : ParseState.ofTokens (tokenize scan source).1 next = s) :
    ∃ ns t id, EStateM.run (readItems scan maxDepth s.remaining []) s = .ok ns t ∧
      (parse scan maxDepth source next).1.tree.children = ns.map (Node.withParent id) ∧
      (parse scan maxDepth source next).1.errors = (tokenize scan source).2 ++ t.errors.toList := by
  obtain ⟨ns, t, hrun⟩ :=
    items_total (item ⟨scan.golf, maxDepth⟩ maxDepth) false s.remaining [] s
  have hroot : EStateM.run (root ⟨scan.golf, maxDepth⟩) s = _ := run_root hrun
  rw [← hs] at hroot
  rw [parse_eq hroot]
  exact ⟨ns, t, t.nextId, hrun, rfl, rfl⟩

end Parts

section Append

variable {scan : ScanSettings} {maxDepth : Nat}

/-- Outside of all rules the parse is where it began. -/
theorem onward_readItems {tokens : List Token} (htokens : Terminated tokens) {next : NodeId}
    {ns : List Node} {t : ParseState} (hrun : EStateM.run (readItems scan maxDepth
      (ParseState.ofTokens tokens next).remaining []) (.ofTokens tokens next) = .ok ns t) :
    t.depth = 0 ∧ t.nesting = 0 := by
  obtain ⟨u, rest, hnext, hterminated, -⟩ := htokens.exists_next
  have hstart : Terminated ((ParseState.ofTokens tokens next).current ::
      (ParseState.ofTokens tokens next).rest) := by
    rw [ParseState.ofTokens_eq hnext]
    exact hterminated
  have hleads := leads_of_run_items hstart (ParseState.left_lt_remaining _) hrun
  obtain ⟨hdepth, hnesting, -⟩ := ParseState.start_ofTokens tokens next
  exact ⟨hleads.depth.trans hdepth, hleads.nesting.trans hnesting⟩

/-- The parse of a source comes to its end in place of a rule or a semicolon. The parse of the
source with a text below it comes to that token, or behind the semicolon, unless a rule is open
there, which the parse of the source reports. -/
theorem cross_stop {tokens tokens' : List Token} {stop : Token} {after : List Token} {closed : Prop}
    {hstop : stop.kind = .kwRule ∨ stop.kind = .semicolon}
    (h : (Seam.ofStop stop after closed hstop).edge.Supply tokens tokens')
    (hbraces : closed → openBraces 0 tokens = 0) (i k : NodeId) {ns : List Node} {t : ParseState}
    (hrun : EStateM.run (readItems scan maxDepth (ParseState.ofTokens tokens i).remaining [])
      (.ofTokens tokens i) = .ok ns t)
    (hrules : closed ∨ ∀ e ∈ t.errors, ¬e.IsUnclosedRule) :
    ∃ ns' t' u' fuel, EStateM.run (readItems scan maxDepth
        (ParseState.ofTokens tokens' k).remaining []) (.ofTokens tokens' k) =
          EStateM.run (readItems scan maxDepth fuel ns'.reverse) t' ∧
      List.Forall₂ Node.Alike ns ns' ∧ after.length < fuel ∧
      (t' = u' ∨ stop.kind = .semicolon ∧ t' = u'.advance) ∧
      u'.current = stop ∧ u'.rest = after ∧ u'.depth = 0 ∧ u'.nesting = 0 ∧
      u'.errors.size = t.errors.size := by
  have hstop' : stop.kind ≠ .eof := by
    rcases hstop with hstop | hstop
    · rw [hstop]
      nofun
    · rw [hstop]
      nofun
  obtain ⟨hdepth, hnesting, herrors⟩ := ParseState.start_ofTokens tokens' k
  have habreast :=
    Seam.abreast_ofTokens h hbraces (Seam.next_ofTokens h k) hdepth hnesting herrors i
  have hrows := Seam.items_together (Seam.item_together ⟨scan.golf, maxDepth⟩ maxDepth)
    (Seam.goesOnward_item ⟨scan.golf, maxDepth⟩ maxDepth) (fun _ : false = false => rfl) []
    after.length _ _ (Nat.lt_succ_self _) (Nat.lt_succ_of_le habreast.place.length_add_le) .nil
    habreast
  obtain ⟨hdepth, hnesting⟩ := onward_readItems h.terminated hrun
  have hleft : EStateM.run (items (item ⟨scan.golf, maxDepth⟩ maxDepth) false
      ((ParseState.ofTokens tokens i).rest.length + 1) []) (.ofTokens tokens i) = .ok ns t := hrun
  rw [hleft] at hrows
  generalize hright : EStateM.run _ (ParseState.ofTokens tokens' k) = r' at hrows
  cases hrows with
  | ok hend =>
    rcases hend with hend | hend
    · cases hend
    · exact absurd hend hstop'
  | @seam _ t' _ ns' fuel _ heof hns hreached hfuel =>
    simp only [List.append_nil] at hright
    -- The state of the second parse at the seam, behind which it may have passed over a semicolon.
    obtain ⟨u', habreast, ht'⟩ := hreached.exists_abreast
    obtain ⟨hcurrent, hrest⟩ := Edge.Place.stopped habreast.place heof
    exact ⟨ns', t', u', fuel, hright, hns, hfuel, ht', hcurrent, hrest,
      habreast.depth.trans hdepth, habreast.nesting.trans hnesting, habreast.errors⟩
  | hidden hhides _ he =>
    obtain ⟨e, hmem, he⟩ := he
    rcases hrules with hclosed | hrules
    · exact absurd hclosed hhides.2
    · exact absurd he (hrules e hmem)

/-- The parse of a source and that of the source with a text below it come to the seam. -/
theorem cross_rule {tokens tokens' : List Token} {stop : Token} {after : List Token}
    {hstop : stop.kind = .kwRule} (h : (Seam.ofRule stop after hstop).edge.Supply tokens tokens')
    (hbraces : openBraces 0 tokens = 0) (i k : NodeId) {ns : List Node} {t : ParseState}
    (hrun : EStateM.run (readItems scan maxDepth (ParseState.ofTokens tokens i).remaining [])
      (.ofTokens tokens i) = .ok ns t) :
    ∃ ns' t' fuel, EStateM.run (readItems scan maxDepth
        (ParseState.ofTokens tokens' k).remaining []) (.ofTokens tokens' k) =
          EStateM.run (readItems scan maxDepth fuel ns'.reverse) t' ∧
      List.Forall₂ Node.Alike ns ns' ∧ after.length < fuel ∧
      t'.current = stop ∧ t'.rest = after ∧ t'.depth = 0 ∧ t'.nesting = 0 ∧
      t'.errors.size = t.errors.size := by
  obtain ⟨ns', t', u', fuel, hboth, hns, hfuel, ht', hu'⟩ :=
    cross_stop h (fun _ => hbraces) i k hrun (.inl trivial)
  rcases ht' with rfl | ⟨hsemicolon, -⟩
  · exact ⟨ns', t', fuel, hboth, hns, hfuel, hu'⟩
  · cases hstop.symm.trans hsemicolon

/-- Behind the seam the parse of both goes on as the parse of the text below does. -/
theorem join_abreast {stop : Token} {offset errors n : Nat} {hstop : stop.kind = .eof}
    {s t' : ParseState} (hs : (Seam.ofEnd stop offset errors hstop).Abreast 0 n s t')
    {fuel fuel' : Nat} (hfuel : n < fuel) (hfuel' : n < fuel') (base : List Node) {ns : List Node}
    {t : ParseState} (hrun : EStateM.run (readItems scan maxDepth fuel []) s = .ok ns t) :
    ∃ new u', EStateM.run (readItems scan maxDepth fuel' base.reverse) t' = .ok (base ++ new) u' ∧
      List.Forall₂ Node.Alike ns new ∧ u'.errors.size = t.errors.size + errors := by
  have hrows := Seam.items_together (Seam.item_together ⟨scan.golf, maxDepth⟩ maxDepth)
    (Seam.goesOnward_item ⟨scan.golf, maxDepth⟩ maxDepth) (fun _ : false = false => rfl)
    base.reverse 0 fuel fuel' hfuel hfuel' .nil hs
  rw [List.nil_append] at hrows
  have hleft : EStateM.run (items (item ⟨scan.golf, maxDepth⟩ maxDepth) false fuel []) s =
      .ok ns t := hrun
  rw [hleft] at hrows
  generalize hright : EStateM.run _ t' = r' at hrows
  cases hrows with
  | @ok _ u' _ new _ h hns =>
    rw [List.reverse_reverse] at hright
    exact ⟨new, u', hright, hns, h.errors⟩
  -- Both parses end at the end of the source.
  | seam hne => exact absurd hstop hne
  | hidden h => exact absurd hstop h.1

/-- Behind the seam the parse of both goes on with the items of the text below. -/
theorem join_end {tokens tokens' : List Token} {stop : Token} {offset : Nat}
    {hstop : stop.kind = .eof}
    (h : ∀ errors, (Seam.ofEnd stop offset errors hstop).edge.Supply tokens tokens') (j : NodeId)
    {t' : ParseState} (hnext : nextSignificant? tokens' = some (t'.current, t'.rest))
    (hdepth : t'.depth = 0) (hnesting : t'.nesting = 0) {fuel : Nat} (hfuel : t'.rest.length < fuel)
    (base : List Node) {ns : List Node} {t : ParseState}
    (hrun : EStateM.run (readItems scan maxDepth (ParseState.ofTokens tokens j).remaining [])
      (.ofTokens tokens j) = .ok ns t) :
    ∃ new u', EStateM.run (readItems scan maxDepth fuel base.reverse) t' = .ok (base ++ new) u' ∧
      List.Forall₂ Node.Alike ns new ∧ u'.errors.size = t.errors.size + t'.errors.size := by
  have habreast := Seam.abreast_ofTokens (h t'.errors.size) False.elim hnext hdepth hnesting rfl j
  exact join_abreast habreast (Nat.lt_succ_self _) (habreast.length_le.trans_lt hfuel) base hrun

/-- **Recovery is compositional in front of rules.** If no string and no block comment is open at
the end of a source, and its braces are closed there, and a text below it begins with a rule, then
the items of both together are those of the source followed by those of the text, however malformed
these are; and there is an error in both together if and only if there is one in the source or in
the text. -/
theorem parse_append (scan : ScanSettings) (maxDepth : Nat) (g t : String) (i j k : NodeId)
    (hterminated : ∀ detail span line column,
      .malformed detail span line column ∈ (tokenize scan g).2 →
        detail ≠ LexicalFault.unterminatedString.message ∧
          detail ≠ LexicalFault.unterminatedComment.message)
    (hrule : (nextSignificant? (tokenize scan t).1).map (·.1.kind) = some .kwRule)
    (hbraces : openBraces 0 (tokenize scan g).1 = 0) :
    List.Forall₂ (fun a b : Node => a.same b)
        ((parse scan maxDepth g i).1.tree.children ++ (parse scan maxDepth t j).1.tree.children)
        (parse scan maxDepth (g ++ "\n" ++ t) k).1.tree.children ∧
      ((parse scan maxDepth (g ++ "\n" ++ t) k).1.errors ≠ [] ↔
        (parse scan maxDepth g i).1.errors ≠ [] ∨ (parse scan maxDepth t j).1.errors ≠ []) := by
  obtain ⟨front, last, between, behind, offset, hg, hlast, hfront, hboth, hbetween, hshifted,
    hlexical⟩ := exists_tokenize_append t hterminated
  obtain ⟨front', last', ht, hlast', hfront'⟩ := exists_tokenize scan t
  obtain ⟨⟨first, rest⟩, hfirst, hkind⟩ := Option.map_eq_some_iff.1 hrule
  obtain ⟨ns, s, id, hrun, hchildren, herrors⟩ := exists_readItems scan maxDepth g i rfl
  obtain ⟨ns', s', id', hrun', hchildren', herrors'⟩ := exists_readItems scan maxDepth t j rfl
  obtain ⟨all, u, id'', hrunAll, hchildrenAll, herrorsAll⟩ :=
    exists_readItems scan maxDepth (g ++ "\n" ++ t) k rfl
  -- The tokens of the text below, and the rule that it begins with.
  rw [ht] at hshifted hfirst
  obtain ⟨stop, hstop, hsupply'⟩ := Seam.exists_supply_ofEnd hlast' hfront' hshifted
  obtain ⟨rule, after, hnext, hrulekind, hoffset⟩ : ∃ rule after,
      nextSignificant? behind = some (rule, after) ∧ rule.kind = .kwRule ∧
        offset ≤ rule.span.start := by
    obtain ⟨v, v', w, w', hv, hv', hplace⟩ := (hsupply' 0).next
    cases hfirst.symm.trans hv
    have hne : first.kind ≠ .eof := fun heof => nomatch hkind.symm.trans heof
    have hpaired : (Seam.ofEnd stop offset 0 hstop).Paired first v' := (hplace.supply hne).1
    refine ⟨v', w', hv', hpaired.kind.trans hkind, ?_⟩
    rw [hpaired.start]
    exact Nat.le_add_left offset _
  -- Up to the rule, and from there on.
  have hsupply : (Seam.ofRule rule after hrulekind).edge.Supply (tokenize scan g).1
      (tokenize scan (g ++ "\n" ++ t)).1 := by
    rw [hg, hboth]
    refine Seam.supply_ofRule hrulekind hlast ?_ fun v hv => ?_
    · rw [Seam.nextSignificant?_append hbetween, hnext]
    · exact ⟨(hfront v hv).1, (hfront v hv).2.trans_le hoffset⟩
  rw [← ht] at hsupply'
  obtain ⟨base, u', fuel, hcross, hbase, hfuel, hcurrent, hrest, hdepth, hnesting, hsize⟩ :=
    cross_rule hsupply hbraces i k hrun
  obtain ⟨new, u'', hjoin, hnew, hsize'⟩ :=
    join_end hsupply' j (by rw [hnext, hcurrent, hrest]) hdepth hnesting (hrest ▸ hfuel) base hrun'
  cases (hcross.trans hjoin).symm.trans hrunAll
  constructor
  · rw [hchildren, hchildren', hchildrenAll, List.map_append]
    refine List.rel_append ?_ ?_
    · rw [List.forall₂_map_left_iff, List.forall₂_map_right_iff]
      exact hbase.imp fun a b h => h.withParent id id''
    · rw [List.forall₂_map_left_iff, List.forall₂_map_right_iff]
      exact hnew.imp fun a b h => h.withParent id' id''
  · have hproductions : u.errors.toList = [] ↔
        s.errors.toList = [] ∧ s'.errors.toList = [] := by
      rw [← List.length_eq_zero_iff, ← List.length_eq_zero_iff, ← List.length_eq_zero_iff,
        Array.length_toList, Array.length_toList, Array.length_toList]
      omega
    rw [herrors, herrors', herrorsAll]
    simp only [ne_eq, List.append_eq_nil_iff, hlexical, hproductions]
    rw [and_and_and_comm, not_and_or]

/-- A rule without its `end` hides nothing of the next one. -/
theorem parse_append_broken :
    List.Forall₂ (fun a b : Node => a.same b)
        ((parse {} 256 "rule broken \x7b if x > 1 then win \x7d" default).1.tree.children ++
          (parse {} 256 "rule fine \x7b if y then pass end \x7d" default).1.tree.children)
        (parse {} 256 ("rule broken \x7b if x > 1 then win \x7d" ++ "\n" ++
          "rule fine \x7b if y then pass end \x7d") default).1.tree.children ∧
      (parse {} 256 ("rule broken \x7b if x > 1 then win \x7d" ++ "\n" ++
        "rule fine \x7b if y then pass end \x7d") default).1.errors ≠ [] := by
  have hlexical : (tokenize {} "rule broken \x7b if x > 1 then win \x7d").2 = [] := by
    decide +kernel
  have herrors :
      (parse {} 256 "rule broken \x7b if x > 1 then win \x7d" default).1.errors ≠ [] := by
    decide +kernel
  have happend := parse_append {} 256 "rule broken \x7b if x > 1 then win \x7d"
    "rule fine \x7b if y then pass end \x7d" default default default
    (by rw [hlexical]; nofun) (by decide +kernel) (by decide +kernel)
  exact ⟨happend.1, happend.2.2 (.inl herrors)⟩

end Append

end Program

end Rulebook
