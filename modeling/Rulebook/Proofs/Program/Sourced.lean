import Rulebook.Proofs.Node.Check
import Rulebook.Proofs.Program.Yield

/-!
# Trees that are read from sources lack nothing but what the source leaves out

Productions make nodes that have what checks ask for, with two exceptions: a text that is an
action may be empty, and a number that is a weight may be too large to be finite. Both stand in
the source.

## Main definitions

* `Node.Sourced`: texts come from tokens, and so does every defect
* `Trees.sourced`: this is kept where productions put trees together
* `Program.Among`: the kinds of some tokens

## Main results

* `Program.sourced_parse`: the trees of programs are accounted for by their tokens
* `Program.check_parse`: which trees that are read from sources pass the check
-/

namespace Rulebook

/-- The weight of consequences whose source names none. -/
theorem isFinite_one : (1.0 : Float).isFinite = true := by
  decide +kernel

theorem Verdict.name_ne (v : Verdict) : v.name ≠ "" := by
  cases v <;> decide

/-! ## Nodes -/

namespace Node

section Sourced

variable {T : TokenKind → Prop}

/-- A text comes from a token. A defect is an empty action or a weight that is not finite, and
these come from tokens. -/
structure Accounted (T : TokenKind → Prop) (n : Node) : Prop where
  text : ∀ s, n.kind = .literal (.string s) → T (.string s)
  defect : ∀ d, n.defect? = some d → ∃ c, n.kind = .consequence c ∧
    (c.action = "" ∧ T (.string "") ∨ c.weight.isFinite = false ∧ T (.number c.weight))

/-- All nodes of a tree are accounted for by tokens. -/
def Sourced (T : TokenKind → Prop) (n : Node) : Prop :=
  ∀ m ∈ n.nodes, m.Accounted T

theorem sourced_iff {n : Node} :
    n.Sourced T ↔ n.Accounted T ∧ ∀ c ∈ n.childNodes, c.Sourced T :=
  forall_mem_nodes_iff

theorem Sourced.accounted {n : Node} (h : n.Sourced T) : n.Accounted T :=
  h n n.mem_nodes_self

theorem sourced_withParent {n : Node} (p : NodeId) : (n.withParent p).Sourced T ↔ n.Sourced T := by
  rw [sourced_iff, sourced_iff]
  exact and_congr_left fun _ => ⟨fun h => ⟨h.text, h.defect⟩, fun h => ⟨h.text, h.defect⟩⟩

theorem sourced_withSpan {n : Node} {span : Span} {line : Nat} :
    (n.withSpan span line).Sourced T ↔ n.Sourced T := by
  rw [sourced_iff, sourced_iff]
  exact and_congr_left fun _ => ⟨fun h => ⟨h.text, h.defect⟩, fun h => ⟨h.text, h.defect⟩⟩

theorem Sourced.linked {id : NodeId} {kind : Kind Node} {children : List Node}
    (h : (Node.linked id kind children).Accounted T)
    (hc : ∀ c ∈ kind.operands ++ children, c.Sourced T) :
    (Node.linked id kind children).Sourced T := by
  refine sourced_iff.2 ⟨h, fun c hmem => ?_⟩
  rw [childNodes_linked] at hmem
  obtain ⟨d, hd, rfl⟩ := List.mem_map.1 hmem
  exact (sourced_withParent id).2 (hc d hd)

/-- A new node that has all its parts, and is no text. -/
theorem accounted_linked {id : NodeId} {kind : Kind Node} {children : List Node}
    (hpart : (Node.linked id kind children).partDefect? = none)
    (htext : ∀ s, kind ≠ .literal (.string s)) : (Node.linked id kind children).Accounted T where
  text s hs := by
    refine absurd ?_ (htext s)
    cases kind <;> cases hs
    rfl
  defect d hd := by
    rw [defect?_linked, hpart] at hd
    cases hd

/-- A new consequence whose action and weight come from tokens, or lack nothing. -/
theorem accounted_consequence {id : NodeId} {c : Consequence} {children : List Node}
    (haction : c.action ≠ "" ∨ T (.string ""))
    (hweight : c.weight.isFinite = true ∨ T (.number c.weight))
    (hassign : c.kind = .assign → children.length = 1) :
    (Node.linked id (.consequence c) children).Accounted T where
  text s hs := by cases hs
  defect d hd := by
    refine ⟨c, rfl, ?_⟩
    rw [defect?_linked] at hd
    simp only [partDefect?, Node.linked, Kind.map, Kind.mapSlots, List.length_map] at hd
    split at hd
    · next h =>
      have hempty : c.action = "" := String.isEmpty_iff.1 h
      exact .inl ⟨hempty, haction.resolve_left (not_not_intro hempty)⟩
    · split at hd
      · next h =>
        rw [Bool.not_eq_true'] at h
        exact .inr ⟨h, hweight.resolve_left (Bool.eq_false_iff.1 h)⟩
      · split at hd
        · next h => exact absurd (hassign h.1) h.2
        · cases hd

/-- Only consequences have defects, so names are not empty. -/
theorem Accounted.name_ne {n : Node} (h : n.Accounted T) {name : String}
    (hk : n.kind = .identifier name) : name ≠ "" := by
  rintro rfl
  obtain ⟨c, hc, -⟩ := h.defect (.missing "Identifier" n.id "name")
    (by simp [defect?, partDefect?, hk, Kind.name])
  rw [hk] at hc
  cases hc

/-- A new node of an expression lacks nothing but what its tokens leave out. -/
theorem Formed.accounted {N : Node → Node → Prop} {kind kind' : Kind Node} {cs cs' : List Node}
    (h : Formed T N kind cs kind' cs') (hnames : ¬T (.identifier ""))
    (hN : ∀ {a b}, N a b → a.Accounted T) (id : NodeId) : (Node.linked id kind cs).Accounted T := by
  have hname {name : String} (h : T (.identifier name)) : name ≠ "" := by
    rintro rfl
    exact hnames h
  cases h with
  | literal _ hstring =>
    refine ⟨fun s hs => hstring s (Kind.literal.inj hs), fun d hd => ?_⟩
    rw [defect?_linked] at hd
    cases hd
  | identifier h | ruleCall h =>
    exact accounted_linked (by simp [partDefect?, Node.linked, Kind.map, Kind.mapSlots, hname h])
      (by simp)
  | assignment h =>
    exact accounted_consequence (.inl (hname h)) (.inl isFinite_one) fun _ => rfl
  | verdict v => exact accounted_consequence (.inl v.name_ne) (.inl isFinite_one) (by simp)
  | weighted v h => exact accounted_consequence (.inl v.name_ne) (.inr h) (by simp)
  | @custom action _ _ h haction =>
    refine accounted_consequence ?_ (.inl isFinite_one) (by simp)
    -- A name is the action that it becomes, and so is a text, which may be empty.
    rcases haction with hk | hk
    · exact .inl ((hN h).name_ne hk)
    · by_cases hempty : action = ""
      · subst hempty
        exact .inr ((hN h).text "" hk)
      · exact .inl hempty
  | @logic op =>
    refine accounted_linked ?_ (by simp)
    cases op with
    | not => contradiction
    | and | or => rfl
  | decision _ _ hno => cases hno <;> exact accounted_linked rfl (by simp)
  | arithmetic op =>
    exact accounted_linked (by simp [partDefect?, Node.linked, Kind.map, Kind.mapSlots]) (by simp)
  | _ => exact accounted_linked rfl (by simp)

end Sourced

end Node

/-- Trees are accounted for by tokens among which no name is empty. -/
def Trees.sourced {T : TokenKind → Prop} (hnames : ¬T (.identifier "")) : Trees T where
  expr := Node.Sourced T
  item := Node.Sourced T
  expr_withSpan := Node.sourced_withSpan.2
  item_withSpan := Node.sourced_withSpan.2
  expr_formed h := .linked (h.accounted hnames (fun hab => hab.2.accounted) _) h.of_mem
  item_expr := id
  item_block hns := .linked (Node.accounted_linked rfl (by simp)) hns
  item_rule {_ name _} hname h := by
    have hne : name ≠ "" := by
      rintro rfl
      exact hnames hname
    refine .linked (Node.accounted_linked ?_ (by simp))
      (by simpa [Kind.operands, Kind.slots] using h)
    simp [Node.partDefect?, Node.linked, Kind.map, Kind.mapSlots, hne]

/-! ## Programs -/

namespace Program

variable (scan : ScanSettings) (maxDepth : Nat) (source : String) (next : NodeId)

/-- The kinds of some tokens. -/
def Among (tokens : List Token) (k : TokenKind) : Prop :=
  ∃ t ∈ tokens, t.kind = k

/-- Trees are accounted for by the tokens of their source. -/
theorem sourced_parse :
    (parse scan maxDepth source next).1.tree.Sourced (Among (tokenize scan source).1) := by
  obtain ⟨front, last, htokens, hlast, hfront⟩ := exists_tokenize scan source
  obtain ⟨root, s, hrun, htree, -⟩ := exists_root scan maxDepth source next
  have hnames : ¬ Among (tokenize scan source).1 (.identifier "") := by
    rw [htokens]
    rintro ⟨t, ht, hk⟩
    rcases List.mem_append.1 ht with ht | ht
    · exact (hfront t ht).named hk
    · cases List.mem_singleton.1 ht
      cases hlast.symm.trans hk
  have heof : Among (tokenize scan source).1 .eof := ⟨last, by simp [htokens], hlast⟩
  have hends := Parse.root_agrees (Trees.sourced hnames) (.refl _ ⟨scan.golf, maxDepth⟩)
    TokenSource.tracks_list _ _ (.refl _) ⟨terminated_ofTokens scan source next,
      ParseState.supplied_ofTokens next heof fun t ht => ⟨t, ht, rfl⟩⟩
    (ParseState.start_ofTokens _ next).2.1 (Nat.le_refl _) trivial
  rw [hrun] at hends
  rw [htree]
  cases hends with
  | ok _ _ _ _ hroot => exact hroot.1.1

/-- **What checks find in trees that are read from sources.** For any source, however malformed,
the tree passes the check if and only if its consequences have actions that are not empty and
weights that are finite; other nodes lack nothing, and the tree is never too deep. It passes if
the source has no empty text and no number that is too large. -/
theorem check_parse :
    ((parse scan maxDepth source next).1.tree.check = .ok () ↔
      ∀ n ∈ (parse scan maxDepth source next).1.tree.nodes, ∀ c, n.kind = .consequence c →
        c.action ≠ "" ∧ c.weight.isFinite = true) ∧
    ((∀ t ∈ (tokenize scan source).1, t.kind ≠ .string "" ∧
        ∀ x, t.kind = .number x → x.isFinite = true) →
      (parse scan maxDepth source next).1.tree.check = .ok ()) := by
  have hsourced := sourced_parse scan maxDepth source next
  have hdepth : (parse scan maxDepth source next).1.tree.depth ≤ maxTreeDepth := by
    obtain ⟨root, s, -, htree, hroot⟩ := exists_root scan maxDepth source next
    rw [htree]
    exact hroot.2
  generalize (parse scan maxDepth source next).1.tree = tree at hsourced hdepth
  rw [Node.check_eq_ok, and_iff_right hdepth]
  refine ⟨⟨fun h n hn c hc => h.consequence hn hc, fun h n hn => ?_⟩, fun h n hn => ?_⟩
  · refine Option.eq_none_iff_forall_ne_some.2 fun d hd => ?_
    obtain ⟨c, hc, ⟨haction, -⟩ | ⟨hweight, -⟩⟩ := (hsourced n hn).defect d hd
    · exact (h n hn c hc).1 haction
    · exact absurd (h n hn c hc).2 (Bool.eq_false_iff.1 hweight)
  · refine Option.eq_none_iff_forall_ne_some.2 fun d hd => ?_
    obtain ⟨c, -, ⟨-, t, ht, hk⟩ | ⟨hweight, t, ht, hk⟩⟩ := (hsourced n hn).defect d hd
    · exact (h t ht).1 hk
    · exact absurd ((h t ht).2 _ hk) (Bool.eq_false_iff.1 hweight)

/-- A source with a text that is an action and with a weight. -/
theorem check_parse_weighted :
    (parse {} 256 "if x > 1 then \"alert\" else win(0.5) end" default).1.tree.check = .ok () := by
  have hkinds : (tokenize {} "if x > 1 then \"alert\" else win(0.5) end").1.map Token.kind =
      [.kwIf, .identifier "x", .gt, .number 1, .kwThen, .string "alert", .kwElse, .verdict .win,
        .lparen, .number 0.5, .rparen, .kwEnd, .eof] := by
    decide +kernel
  have hone : (1 : Float).isFinite = true := by decide +kernel
  have hhalf : (0.5 : Float).isFinite = true := by decide +kernel
  refine (check_parse {} 256 _ default).2 ?_
  rw [← List.forall_mem_map (f := Token.kind)
    (P := fun k => k ≠ .string "" ∧ ∀ x, k = .number x → x.isFinite = true), hkinds]
  simp [hone, hhalf]

/-- A weight that is too large for a number, and an empty text that is an action, are no errors of
a source. -/
theorem check_parse_ne_ok :
    (parse {} 256 "win(1e999)" default).1.errors = [] ∧
      (parse {} 256 "win(1e999)" default).1.tree.check ≠ .ok () ∧
      (parse {} 256 "if x then \"\" end" default).1.errors = [] ∧
      (parse {} 256 "if x then \"\" end" default).1.tree.check ≠ .ok () := by
  decide +kernel

end Program

end Rulebook
