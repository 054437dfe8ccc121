import Rulebook.Proofs.Node.Preorder
import Rulebook.Proofs.Program.Boundary
import Rulebook.Proofs.Program.Consumption

/-!
# Rules below a source

A rule is read wherever it stands below a source, however malformed that is, unless a rule of the
source is still open at its end. This is reported: the parse of the source alone comes to its end in
the body of that rule. The rule below is then taken for a part of the body, and goes with it.

## Main results

* `Program.exists_readItems_from`: items are read from any place, and errors stay noted
* `Program.exists_first`: what a source without errors that holds one rule begins with
* `Program.same_children_append`: the items of a source and of a text below it
* `Program.findRule?_parse_append`: a rule below a source is found
-/

namespace Rulebook

open Parse

/-! ## States by themselves -/

namespace Seam

section Alone

/-- Tokens up to their end beside themselves. -/
theorem exists_supply_self {tokens : List Token} (h : Terminated tokens) :
    ∃ stop, ∃ hstop : stop.kind = .eof, ∀ errors,
      (ofEnd stop 0 errors hstop).edge.Supply tokens tokens := by
  induction h with
  | @last t ht =>
    refine ⟨t, ht, fun _ => .last ht ?_⟩
    rw [nextSignificant?, ht]
    rfl
  | cons hproper _ ih =>
    obtain ⟨stop, hstop, hsupply⟩ := ih
    exact ⟨stop, hstop, fun errors =>
      .cons ⟨⟨rfl, rfl⟩, hproper, fun hne => absurd hstop hne⟩ (hsupply errors)⟩

/-- A current token with those behind it. -/
theorem place_self {m : Seam} {t : Token} {rest : List Token}
    (h : m.edge.Supply (t :: rest) (t :: rest)) : m.edge.Place t rest t rest := by
  cases h with
  | last heof hnext =>
    rw [nextSignificant?, heof] at hnext
    obtain ⟨hstop, hafter⟩ := Prod.mk.inj (Option.some.inj hnext)
    exact .inr ⟨heof, rfl, hstop, hafter⟩
  | cons ht hrest => exact .inl ⟨ht, hrest⟩

/-- A state beside itself, without the errors that were noted. -/
theorem exists_abreast_self {s : ParseState} (h : Terminated (s.current :: s.rest)) :
    ∃ stop, ∃ hstop : stop.kind = .eof,
      (ofEnd stop 0 s.errors.size hstop).Abreast 0 s.rest.length { s with errors := #[] } s := by
  obtain ⟨stop, hstop, hsupply⟩ := exists_supply_self h
  exact ⟨stop, hstop, rfl, rfl, (Nat.zero_add _).symm, place_self (hsupply _), False.elim,
    Nat.le_refl _⟩

end Alone

end Seam

/-! ## Rules by name -/

namespace Node

section Names

/-- Of two equal trees both are rules of a name, or none is. -/
theorem Alike.isRule_eq {a b : Node} (h : a.Alike b) (name : String) :
    a.isRule name = b.isRule name := by
  have hpayload := (alike_iff.1 h).1.payload
  rw [isRule, isRule]
  generalize a.kind = ka at hpayload
  generalize b.kind = kb at hpayload
  cases ka <;> cases kb <;> simp_all [Kind.samePayload, RuleHead.same, Kind.rule?]

theorem not_ruleFree_of_isRule {n : Node} {name : String} (h : n.isRule name = true) :
    ¬n.RuleFree := by
  intro hfree
  rw [isRule, (ruleFree_iff.1 hfree).1] at h
  cases h

/-- A child that is a rule of a name is found, or another rule of that name. -/
theorem isSome_findRule? {n c : Node} {name : String} (hc : c ∈ n.children)
    (h : c.isRule name = true) : (n.findRule? name).isSome = true := by
  rw [findRule?, find?_eq, List.find?_isSome]
  exact ⟨c, mem_nodes_of_mem_childNodes (List.mem_append_right _ hc) (mem_nodes_self c), h⟩

end Names

end Node

namespace Program

variable {scan : ScanSettings} {maxDepth : Nat}

/-! ## The first token -/

section First

variable (scan : ScanSettings) (maxDepth : Nat)

/-- Items are read from any place in a source. What was read before comes first, and errors that
were noted before stay noted. -/
theorem exists_readItems_from {s : ParseState} (hs : Terminated (s.current :: s.rest)) {fuel : Nat}
    (hfuel : s.rest.length < fuel) (base : List Node) :
    ∃ new t, EStateM.run (readItems scan maxDepth fuel base.reverse) s = .ok (base ++ new) t ∧
      s.errors.size ≤ t.errors.size := by
  obtain ⟨stop, hstop, habreast⟩ := Seam.exists_abreast_self hs
  obtain ⟨ns, u, hrun⟩ := items_total (item ⟨scan.golf, maxDepth⟩ maxDepth) false fuel []
    { s with errors := #[] }
  obtain ⟨new, t, hrun', -, herrors⟩ := join_abreast habreast hfuel hfuel base hrun
  exact ⟨new, t, hrun', by omega⟩

/-- An item that does not begin with the keyword of a rule holds no rules. -/
theorem ruleFree_of_item {settings : ParseSettings} {levels : Nat} {s t : ParseState} {n : Node}
    (hs : Terminated (s.current :: s.rest)) (hrule : s.current.kind ≠ .kwRule)
    (hrun : EStateM.run (item settings levels) s = .ok n t) : n.RuleFree := by
  cases levels with
  | zero => exact ruleFree_statement hs hrun
  | succ levels =>
    have hitem : EStateM.run (item settings (levels + 1)) s =
        EStateM.run (if s.current.kind == .kwRule then nested settings (rule (item settings levels))
          else statement settings (expr settings (levels + 1))) s := rfl
    rw [hitem, beq_eq_false_iff_ne.2 hrule, if_neg Bool.false_ne_true] at hrun
    exact ruleFree_statement hs hrun

/-- A round that begins neither with the keyword of a rule nor with a semicolon takes tokens. It
comes to an item without rules, or an error is noted. -/
theorem exists_turn {s : ParseState} (hs : Terminated (s.current :: s.rest))
    (heof : s.current.kind ≠ .eof) (hrule : s.current.kind ≠ .kwRule)
    (hsemicolon : s.current.kind ≠ .semicolon) :
    ∃ new t, EStateM.run (turn (item ⟨scan.golf, maxDepth⟩ maxDepth) false s.current.span.start) s =
        .ok new t ∧ Terminated (t.current :: t.rest) ∧ t.rest.length < s.rest.length ∧
      ((∃ n, new = some n ∧ n.RuleFree) ∨ t.errors.size ≠ 0) := by
  obtain ⟨new, t, hturn, hleads, hlt⟩ :=
    turn_stops ⟨scan.golf, maxDepth⟩ maxDepth hs heof fun _ => rfl
  refine ⟨new, t, hturn, hleads.plain.terminated, hleads.moved.length_lt hlt, ?_⟩
  rw [run_turn false _ hsemicolon] at hturn
  cases hr : EStateM.run (item ⟨scan.golf, maxDepth⟩ maxDepth) s with
  | ok n u =>
    rw [hr] at hturn
    obtain ⟨rfl, -⟩ := EStateM.Result.ok.inj hturn
    exact .inl ⟨n, rfl, ruleFree_of_item hs hrule hr⟩
  | error e u =>
    have hu : Terminated (u.current :: u.rest) := (leads_of_run_item hs hr).plain.terminated
    obtain ⟨⟨⟩, v, hv⟩ := recover_total e s.current.span.start false u
    rw [hr] at hturn
    dsimp only at hturn
    rw [EStateM.run_bind, hv] at hturn
    obtain ⟨-, rfl⟩ := EStateM.Result.ok.inj hturn
    refine .inr ?_
    rw [(errors_recover hu hv).1, Array.size_push]
    exact Nat.succ_ne_zero _

variable {scan maxDepth}

/-- A source without errors that holds a rule and nothing else begins with the keyword of a rule, or
with a semicolon. -/
theorem exists_first {source : String} {next : NodeId} {n : Node}
    (herrors : (parse scan maxDepth source next).1.errors = [])
    (hchildren : (parse scan maxDepth source next).1.tree.children = [n]) (hn : ¬n.RuleFree) :
    ∃ first rest, nextSignificant? (tokenize scan source).1 = some (first, rest) ∧
      (first.kind = .kwRule ∨ first.kind = .semicolon) := by
  obtain ⟨first, rest, hnext, hfirst, -⟩ := (terminated_tokenize scan source).exists_next
  refine ⟨first, rest, hnext, ?_⟩
  obtain ⟨ns, t, id, hrun, hns, hnoted⟩ := exists_readItems scan maxDepth source next rfl
  rw [ParseState.ofTokens_eq hnext] at hrun
  set s : ParseState :=
    { current := first, previous := ParseState.emptyToken, rest, nextId := next }
  have hquiet : t.errors.size = 0 := by
    rw [herrors] at hnoted
    rw [← Array.length_toList, (List.append_eq_nil_iff.1 hnoted.symm).2, List.length_nil]
  rw [hchildren] at hns
  by_contra hother
  obtain ⟨hrule, hsemicolon⟩ := not_or.1 hother
  by_cases heof : s.current.kind = .eof
  · -- A source that ends at once holds nothing.
    have hend : EStateM.run (readItems scan maxDepth s.remaining []) s = .ok [].reverse s :=
      run_items_eof false s.remaining [] heof
    obtain ⟨hnil, -⟩ := EStateM.Result.ok.inj (hend.symm.trans hrun)
    rw [← hnil] at hns
    cases hns
  · have hround : (s.current.kind == .eof || (false && s.current.kind == .rbrace)) = false := by
      rw [Bool.false_and, Bool.or_false]
      exact beq_eq_false_iff_ne.2 heof
    obtain ⟨new, u, hturn, hu, hlength, hnew⟩ :=
      exists_turn scan maxDepth (s := s) hfirst heof hrule hsemicolon
    obtain ⟨more, v, hmore, hsize⟩ :=
      exists_readItems_from scan maxDepth hu hlength new.toList.reverse
    have hall : EStateM.run (readItems scan maxDepth s.remaining []) s =
        .ok (new.toList.reverse ++ more) v := by
      have hstep := run_items_turn rest.length [] hround hturn
      rw [List.append_nil] at hstep
      rw [List.reverse_reverse] at hmore
      exact hstep.trans hmore
    obtain ⟨rfl, rfl⟩ := EStateM.Result.ok.inj (hall.symm.trans hrun)
    rcases hnew with ⟨m, rfl, hm⟩ | hnoted
    -- The item without rules would be the rule.
    · obtain ⟨rfl, -⟩ := List.cons.inj hns
      exact hn (Node.ruleFree_withParent.2 hm)
    · omega

end First

/-! ## Items of a source and of a text below it -/

section Below

/-- Behind the seam, or behind the semicolon that stands there, the parse of both goes on with the
items of the text below. -/
theorem join_stop {tokens tokens' : List Token} {stop : Token} {offset : Nat}
    {hstop : stop.kind = .eof}
    (h : ∀ errors, (Seam.ofEnd stop offset errors hstop).edge.Supply tokens tokens') (j : NodeId)
    {t' u' : ParseState} (hnext : nextSignificant? tokens' = some (u'.current, u'.rest))
    (hdepth : u'.depth = 0) (hnesting : u'.nesting = 0)
    (ht' : t' = u' ∨ u'.current.kind = .semicolon ∧ t' = u'.advance)
    {fuel : Nat} (hfuel : u'.rest.length < fuel) (base : List Node) {ns : List Node}
    {t : ParseState}
    (hrun : EStateM.run (readItems scan maxDepth (ParseState.ofTokens tokens j).remaining [])
      (.ofTokens tokens j) = .ok ns t) :
    ∃ new u'', EStateM.run (readItems scan maxDepth fuel base.reverse) t' = .ok (base ++ new) u'' ∧
      List.Forall₂ Node.Alike ns new := by
  rcases ht' with rfl | ⟨hsemicolon, rfl⟩
  · obtain ⟨new, u'', hjoin, hnew, -⟩ := join_end h j hnext hdepth hnesting hfuel base hrun
    exact ⟨new, u'', hjoin, hnew⟩
  · have habreast := Seam.abreast_ofTokens (h u'.errors.size) False.elim hnext hdepth hnesting rfl j
    generalize ParseState.ofTokens tokens j = s at hrun habreast
    have hpaired : (Seam.ofEnd stop offset u'.errors.size hstop).Paired s.current u'.current := by
      refine (Edge.Place.supply habreast.place fun heof => ?_).1
      have hcurrent : u'.current = stop := (Edge.Place.stopped habreast.place heof).1
      rw [hcurrent] at hsemicolon
      cases hstop.symm.trans hsemicolon
    have hat : (Seam.ofEnd stop offset u'.errors.size hstop).At 0 s.rest.length s.current u'.current
        s u' := ⟨habreast, rfl, rfl⟩
    have hpos := hat.pos hpaired
    have hle := habreast.length_le
    -- The text below is read from behind its semicolon on.
    have hkind : s.current.kind = .semicolon := hpaired.kind.symm.trans hsemicolon
    have hround : (s.current.kind == .eof || (false && s.current.kind == .rbrace)) = false := by
      rw [hkind]
      rfl
    have hstep : EStateM.run (readItems scan maxDepth s.remaining []) s =
        EStateM.run (readItems scan maxDepth s.rest.length []) s.advance :=
      run_items_turn s.rest.length [] hround (run_turn_semicolon false s.current.span.start hkind)
    have hfuel' : s.rest.length - 1 < fuel := by omega
    obtain ⟨new, u'', hjoin, hnew, -⟩ := join_abreast (hat.advance hpaired (Nat.zero_le _))
      (Nat.sub_lt hpos Nat.one_pos) hfuel' base (hstep.symm.trans hrun)
    exact ⟨new, u'', hjoin, hnew⟩

variable {g t : String} (hterminated : ∀ detail span line column,
    .malformed detail span line column ∈ (tokenize scan g).2 →
      detail ≠ LexicalFault.unterminatedString.message ∧
        detail ≠ LexicalFault.unterminatedComment.message)
  {first : Token} {rest : List Token}
  (hfirst : nextSignificant? (tokenize scan t).1 = some (first, rest))
  (hkind : first.kind = .kwRule ∨ first.kind = .semicolon)
include hterminated hfirst hkind

/-- The seam between a source and a text below it is in front of the first token of the text, in its
new place. Behind it the tokens are those of the text. -/
theorem exists_seam : ∃ stop after, ∃ hstop : stop.kind = .kwRule ∨ stop.kind = .semicolon,
    (Seam.ofStop stop after False hstop).edge.Supply (tokenize scan g).1
        (tokenize scan (g ++ "\n" ++ t)).1 ∧
      ∃ behind, nextSignificant? behind = some (stop, after) ∧
        ∃ last offset, ∃ hlast : last.kind = .eof, ∀ errors,
          (Seam.ofEnd last offset errors hlast).edge.Supply (tokenize scan t).1 behind := by
  obtain ⟨front, last, between, behind, offset, hg, hlast, hfront, hboth, hbetween, hshifted, -⟩ :=
    exists_tokenize_append t hterminated
  obtain ⟨front', last', ht, hlast', hfront'⟩ := exists_tokenize scan t
  rw [ht] at hshifted hfirst ⊢
  obtain ⟨stop', hstop', hsupply⟩ := Seam.exists_supply_ofEnd hlast' hfront' hshifted
  obtain ⟨v, stop, w, after, hv, hnext, hplace⟩ := (hsupply 0).next
  cases hfirst.symm.trans hv
  have hne : first.kind ≠ .eof := by
    intro heof
    rcases hkind with hkind | hkind
    · cases heof.symm.trans hkind
    · cases heof.symm.trans hkind
  have hpaired : (Seam.ofEnd stop' offset 0 hstop').Paired first stop := (hplace.supply hne).1
  have hstop : stop.kind = .kwRule ∨ stop.kind = .semicolon := hpaired.kind ▸ hkind
  refine ⟨stop, after, hstop, ?_, behind, hnext, stop', offset, hstop', hsupply⟩
  rw [hg, hboth]
  refine Seam.supply_ofStop hstop hlast ?_ fun v hv => ⟨(hfront v hv).1, ?_⟩
  · rw [Seam.nextSignificant?_append hbetween, hnext]
  · rw [hpaired.start]
    exact (hfront v hv).2.trans_le (Nat.le_add_left offset _)

/-- The items of a source with a text below it are those of the source followed by those of the
text, if the text begins with a rule or a semicolon and no rule is open at the end of the source. -/
theorem same_children_append (i j k : NodeId)
    (hrules : ∀ e ∈ (parse scan maxDepth g i).1.errors, ¬e.IsUnclosedRule) :
    List.Forall₂ Node.Alike
      ((parse scan maxDepth g i).1.tree.children ++ (parse scan maxDepth t j).1.tree.children)
      (parse scan maxDepth (g ++ "\n" ++ t) k).1.tree.children := by
  obtain ⟨stop, after, hstop, hsupply, behind, hnext, last, offset, hlast, hsupply'⟩ :=
    exists_seam hterminated hfirst hkind
  obtain ⟨ns, s, id, hrun, hchildren, herrors⟩ := exists_readItems scan maxDepth g i rfl
  obtain ⟨ns', s', id', hrun', hchildren', -⟩ := exists_readItems scan maxDepth t j rfl
  obtain ⟨all, u, id'', hrunAll, hchildrenAll, -⟩ :=
    exists_readItems scan maxDepth (g ++ "\n" ++ t) k rfl
  have hopen : ∀ e ∈ s.errors, ¬e.IsUnclosedRule := by
    intro e he
    refine hrules e ?_
    rw [herrors]
    exact List.mem_append_right _ (Array.mem_toList_iff.2 he)
  -- Up to the seam, and from there on.
  obtain ⟨base, t', u', fuel, hcross, hbase, hfuel, ht', hcurrent, hrest, hdepth, hnesting, -⟩ :=
    cross_stop hsupply False.elim i k hrun (.inr hopen)
  obtain ⟨new, u'', hjoin, hnew⟩ := join_stop hsupply' j (by rw [hnext, hcurrent, hrest]) hdepth
    hnesting (hcurrent ▸ ht') (hrest ▸ hfuel) base hrun'
  obtain ⟨rfl, -⟩ := EStateM.Result.ok.inj ((hcross.trans hjoin).symm.trans hrunAll)
  rw [hchildren, hchildren', hchildrenAll, List.map_append]
  refine List.rel_append ?_ ?_
  · rw [List.forall₂_map_left_iff, List.forall₂_map_right_iff]
    exact hbase.imp fun a b h => h.withParent id id''
  · rw [List.forall₂_map_left_iff, List.forall₂_map_right_iff]
    exact hnew.imp fun a b h => h.withParent id' id''

end Below

/-! ## Rules below a source -/

section Found

/-- **A malformed source hides no rule below it, unless it leaves a rule open.** If no string and no
block comment is open at the end of a source, and its parse does not report a rule that is not
closed there, and a text has no errors and is a single rule, then that rule is found in the source
with the text below it. It comes last there, behind the items of the source. -/
theorem findRule?_parse_append (scan : ScanSettings) (maxDepth : Nat) (g t name : String)
    (i j k : NodeId)
    (hterminated : ∀ detail span line column,
      .malformed detail span line column ∈ (tokenize scan g).2 →
        detail ≠ LexicalFault.unterminatedString.message ∧
          detail ≠ LexicalFault.unterminatedComment.message)
    (hrules : ∀ e ∈ (parse scan maxDepth g i).1.errors, ¬e.IsUnclosedRule)
    (herrors : (parse scan maxDepth t j).1.errors = []) {n : Node}
    (hchildren : (parse scan maxDepth t j).1.tree.children = [n]) (hname : n.isRule name = true) :
    ((parse scan maxDepth (g ++ "\n" ++ t) k).1.tree.findRule? name).isSome = true ∧
      List.Forall₂ (fun a b : Node => a.same b) ((parse scan maxDepth g i).1.tree.children ++ [n])
        (parse scan maxDepth (g ++ "\n" ++ t) k).1.tree.children := by
  obtain ⟨first, rest, hfirst, hkind⟩ :=
    exists_first herrors hchildren (Node.not_ruleFree_of_isRule hname)
  have hsame := same_children_append hterminated hfirst hkind i j k hrules
  rw [hchildren] at hsame
  -- The rule comes last.
  have hreverse := List.forall₂_reverse_iff.2 hsame
  rw [List.reverse_append, List.reverse_singleton, List.singleton_append] at hreverse
  obtain ⟨last, before, hlast, -, hall⟩ := List.forall₂_cons_left_iff.1 hreverse
  have hmem : last ∈ (parse scan maxDepth (g ++ "\n" ++ t) k).1.tree.children := by
    rw [← List.mem_reverse, hall]
    exact List.mem_cons_self
  exact ⟨Node.isSome_findRule? hmem (hlast.isRule_eq name ▸ hname), hsame⟩

/-- A source with braces that nothing opened or closes, and with a rule that is cut off at its
name. -/
def cutOff : String := "if \x7b win\nrule a \x7b else \x7d \x7d\nrule"

/-- What is cut off hides no rule below. -/
theorem findRule?_parse_append_cutOff :
    (parse {} 256 cutOff default).1.errors.length = 4 ∧
      ((parse {} 256 (cutOff ++ "\n" ++ "; rule b \x7b win \x7d;") default).1.tree.findRule?
        "b").isSome = true := by
  have hlexical : (tokenize {} cutOff).2 = [] := by decide +kernel
  have hlength : (parse {} 256 "; rule b \x7b win \x7d;" default).1.tree.children.length = 1 := by
    decide +kernel
  have hall : (parse {} 256 "; rule b \x7b win \x7d;" default).1.tree.children.all
      (Node.isRule "b") = true := by decide +kernel
  obtain ⟨n, hn⟩ := List.length_eq_one_iff.1 hlength
  rw [hn, List.all_cons, Bool.and_eq_true_iff] at hall
  have hfound := findRule?_parse_append {} 256 cutOff "; rule b \x7b win \x7d;" "b" default default
    default (by rw [hlexical]; nofun) (by decide +kernel) (by decide +kernel) hn hall.1
  exact ⟨by decide +kernel, hfound.1⟩

/-- A rule that is open at the end of a source hides the rule below it. -/
theorem findRule?_parse_append_open :
    (tokenize {} "rule a \x7b").2 = [] ∧
      (parse {} 256 "rule b \x7b win \x7d" default).1.errors = [] ∧
      (∃ n : Node, (parse {} 256 "rule b \x7b win \x7d" default).1.tree.children = [n] ∧
        n.isRule "b" = true) ∧
      ((parse {} 256 ("rule a \x7b" ++ "\n" ++ "rule b \x7b win \x7d") default).1.tree.findRule?
        "b").isSome = false := by
  have hlength : (parse {} 256 "rule b \x7b win \x7d" default).1.tree.children.length = 1 := by
    decide +kernel
  have hall : (parse {} 256 "rule b \x7b win \x7d" default).1.tree.children.all
      (Node.isRule "b") = true := by decide +kernel
  obtain ⟨n, hn⟩ := List.length_eq_one_iff.1 hlength
  rw [hn, List.all_cons, Bool.and_eq_true_iff] at hall
  exact ⟨by decide +kernel, by decide +kernel, ⟨n, hn, hall.1⟩, by decide +kernel⟩

end Found

end Program

end Rulebook
