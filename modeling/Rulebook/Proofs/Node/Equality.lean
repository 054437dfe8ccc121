import Rulebook.Proofs.Node.RoundTrip
import Rulebook.Proofs.Node.Unmarked

/-!
# Equality of trees by recursion

Trees are compared with a list of pairs that still have to agree, and the first pair that does not
ends the comparison. What comes of it is a recursion: what two roots carry is equal, the same slots
are filled with equal operands, and generic children are equal one by one. The answer depends
neither on the order in which pairs are taken nor on what says where a tree comes from and what was
done with it.

Doubles are compared as numbers, so a tree need not equal itself. But equality of trees is symmetric
and transitive, as equality of doubles is.

## Main definitions

* `Literal.Equal`, `Kind.Equal`, `Node.Equal`: equality of trees by recursion
* `Node.outline`: a tree without identities, places, parents and notes
* `Node.Compares`: a comparison that takes any of the pairs that are left

## Main results

* `Node.alike_iff_equal`: trees are equal if they are equal by recursion
* `Node.Alike.symm`, `Node.Alike.trans`: equality of trees is symmetric and transitive
* `Node.alike_outline_iff`: trees are equal if their outlines are
* `Node.compares_iff`: the order of comparison does not matter
* `Node.same_recursive`: all of this together
-/

namespace Rulebook

/-! ## Rows side by side -/

section Rows

variable {α β γ : Type} {R S : α → β → Prop} {as : List α} {bs : List β}

theorem forall₂_congr_of_mem (h : ∀ a ∈ as, ∀ b, R a b ↔ S a b) :
    List.Forall₂ R as bs ↔ List.Forall₂ S as bs := by
  constructor
  · intro hR
    have hboth := (List.forall₂_and_left as bs).2 ⟨h, hR⟩
    exact hboth.imp fun a b hab => (hab.1 b).1 hab.2
  · intro hS
    have hboth := (List.forall₂_and_left as bs).2 ⟨h, hS⟩
    exact hboth.imp fun a b hab => (hab.1 b).2 hab.2

theorem forall₂_swap_iff : List.Forall₂ (fun a b => R b a) bs as ↔ List.Forall₂ R as bs :=
  ⟨fun h => h.flip, fun h => h.flip⟩

theorem forall₂_trans_of_mem {R : α → β → Prop} {S : β → γ → Prop} {T : α → γ → Prop}
    {as : List α} {bs : List β} {cs : List γ} (hR : List.Forall₂ R as bs)
    (hS : List.Forall₂ S bs cs) (hT : ∀ a ∈ as, ∀ b c, R a b → S b c → T a c) :
    List.Forall₂ T as cs := by
  induction hR generalizing cs with
  | nil =>
    cases hS
    exact .nil
  | @cons a b as bs hab _ ih =>
    cases hS with
    | @cons _ c _ cs hbc hS =>
      refine .cons (hT a List.mem_cons_self b c hab hbc) (ih hS ?_)
      exact fun a' ha' => hT a' (List.mem_cons_of_mem a ha')

end Rows

/-! ## What a node carries -/

/-- Two constants have the same type and are equal, doubles as numbers. -/
inductive Literal.Equal : Literal → Literal → Prop where
  | null : Equal .null .null
  | bool (b : Bool) : Equal (.bool b) (.bool b)
  | number {x y : Float} (h : x == y) : Equal (.number x) (.number y)
  | string (s : String) : Equal (.string s) (.string s)

/-- Two nodes have the same variant and carry the same, and the same of their slots are filled, with
related operands. Weights are compared as numbers; flags and counts are not compared. -/
inductive Kind.Equal {α β : Type} (R : α → β → Prop) : Kind α → Kind β → Prop where
  | decision {c y n : Option α} {c' y' n' : Option β} (hc : Option.Rel R c c')
      (hy : Option.Rel R y y') (hn : Option.Rel R n n') :
      Equal R (.decision c y n) (.decision c' y' n')
  | consequence {c c' : Consequence} (haction : c.action = c'.action) (hkind : c.kind = c'.kind)
      (hweight : c.weight == c'.weight) : Equal R (.consequence c) (.consequence c')
  | rule {head head' : RuleHead} {body : Option α} {body' : Option β}
      (hname : head.name = head'.name) (hactive : head.isActive = head'.isActive)
      (hbody : Option.Rel R body body') : Equal R (.rule head body) (.rule head' body')
  | logic (op : LogicOp) {l r : Option α} {l' r' : Option β} (hl : Option.Rel R l l')
      (hr : Option.Rel R r r') : Equal R (.logic op l r) (.logic op l' r')
  | comparison (op : CompareOp) {l r : Option α} {l' r' : Option β} (hl : Option.Rel R l l')
      (hr : Option.Rel R r r') : Equal R (.comparison op l r) (.comparison op l' r')
  | identifier (name : String) : Equal R (.identifier name) (.identifier name)
  | literal {l l' : Literal} (h : l.Equal l') : Equal R (.literal l) (.literal l')
  | chain (order : ChainOrder) {f s : Option α} {f' s' : Option β} (hf : Option.Rel R f f')
      (hs : Option.Rel R s s') : Equal R (.chain order f s) (.chain order f' s')
  | arithmetic (op : ArithOp) {l r : Option α} {l' r' : Option β} (hl : Option.Rel R l l')
      (hr : Option.Rel R r r') : Equal R (.arithmetic op l r) (.arithmetic op l' r')
  | block : Equal R .block .block
  | ruleCall (name : String) : Equal R (.ruleCall name) (.ruleCall name)
  | extension (tag : String) : Equal R (.extension tag) (.extension tag)

namespace Literal

theorem equal_iff {l m : Literal} : l.Equal m ↔ l.same m := by
  constructor
  · intro h
    cases h with
    | null => rfl
    | bool b => exact beq_self_eq_true b
    | number h => exact h
    | string s => exact beq_self_eq_true s
  · intro h
    cases l with
    | null =>
      cases m with
      | null => exact .null
      | _ => cases h
    | bool b =>
      cases m with
      | bool c =>
        obtain rfl : b = c := eq_of_beq h
        exact .bool b
      | _ => cases h
    | number x =>
      cases m with
      | number y => exact .number h
      | _ => cases h
    | string s =>
      cases m with
      | string t =>
        obtain rfl : s = t := eq_of_beq h
        exact .string s
      | _ => cases h

theorem same_comm (l m : Literal) : l.same m = m.same l := by
  cases l <;> cases m <;> simp only [same, BEq.comm]

theorem same_trans {l m k : Literal} (hlm : l.same m) (hmk : m.same k) : l.same k := by
  rw [← equal_iff] at hlm hmk ⊢
  cases hlm with
  | number hxy =>
    cases hmk with
    | number hyz => exact .number (BEq.trans hxy hyz)
  | _ => exact hmk

end Literal

namespace Kind

section Payload

variable {α β γ : Type} {R S : α → β → Prop} {k : Kind α} {l : Kind β}

theorem Equal.alike (h : k.Equal R l) : k.Alike R l := by
  cases h with
  | decision hc hy hn => exact ⟨rfl, .cons hc (.cons hy (.cons hn .nil))⟩
  | consequence haction hkind hweight =>
    exact ⟨by simp [samePayload, Consequence.same, haction, hkind, hweight], .nil⟩
  | rule hname hactive hbody =>
    exact ⟨by simp [samePayload, RuleHead.same, hname, hactive], .cons hbody .nil⟩
  | logic op hl hr | comparison op hl hr | chain op hl hr | arithmetic op hl hr =>
    exact ⟨by simp [samePayload], .cons hl (.cons hr .nil)⟩
  | literal h => exact ⟨Literal.equal_iff.1 h, .nil⟩
  | _ => exact ⟨by simp [samePayload], .nil⟩

theorem forall₂_pair {a b : Option α} {a' b' : Option β}
    (h : List.Forall₂ (Option.Rel R) [a, b] [a', b']) : Option.Rel R a a' ∧ Option.Rel R b b' := by
  obtain ⟨ha, h⟩ := List.forall₂_cons.1 h
  exact ⟨ha, (List.forall₂_cons.1 h).1⟩

/-- Slots and what is carried beside them determine how a node is compared. -/
theorem equal_iff : k.Equal R l ↔ k.Alike R l := by
  constructor
  · exact Equal.alike
  · rintro ⟨hpayload, hslots⟩
    cases k with
    | decision c y n =>
      cases l with
      | decision c' y' n' =>
        obtain ⟨hc, hslots⟩ := List.forall₂_cons.1 hslots
        obtain ⟨hy, hn⟩ := forall₂_pair hslots
        exact .decision hc hy hn
      | _ => cases hpayload
    | consequence c =>
      cases l with
      | consequence c' =>
        simp only [samePayload, Consequence.same, Bool.and_eq_true, beq_iff_eq] at hpayload
        obtain ⟨⟨haction, hkind⟩, hweight⟩ := hpayload
        exact .consequence haction hkind hweight
      | _ => cases hpayload
    | rule head body =>
      cases l with
      | rule head' body' =>
        simp only [samePayload, RuleHead.same, Bool.and_eq_true, beq_iff_eq] at hpayload
        exact .rule hpayload.1 hpayload.2 (List.forall₂_cons.1 hslots).1
      | _ => cases hpayload
    | logic op a b =>
      cases l with
      | logic op' a' b' =>
        obtain rfl := eq_of_beq hpayload
        obtain ⟨ha, hb⟩ := forall₂_pair hslots
        exact .logic op ha hb
      | _ => cases hpayload
    | comparison op a b =>
      cases l with
      | comparison op' a' b' =>
        obtain rfl := eq_of_beq hpayload
        obtain ⟨ha, hb⟩ := forall₂_pair hslots
        exact .comparison op ha hb
      | _ => cases hpayload
    | identifier name =>
      cases l with
      | identifier name' =>
        obtain rfl := eq_of_beq hpayload
        exact .identifier name
      | _ => cases hpayload
    | literal c =>
      cases l with
      | literal c' => exact .literal (Literal.equal_iff.2 hpayload)
      | _ => cases hpayload
    | chain order a b =>
      cases l with
      | chain order' a' b' =>
        obtain rfl := eq_of_beq hpayload
        obtain ⟨ha, hb⟩ := forall₂_pair hslots
        exact .chain order ha hb
      | _ => cases hpayload
    | arithmetic op a b =>
      cases l with
      | arithmetic op' a' b' =>
        obtain rfl := eq_of_beq hpayload
        obtain ⟨ha, hb⟩ := forall₂_pair hslots
        exact .arithmetic op ha hb
      | _ => cases hpayload
    | block =>
      cases l with
      | block => exact .block
      | _ => cases hpayload
    | ruleCall name =>
      cases l with
      | ruleCall name' =>
        obtain rfl := eq_of_beq hpayload
        exact .ruleCall name
      | _ => cases hpayload
    | extension tag =>
      cases l with
      | extension tag' =>
        obtain rfl := eq_of_beq hpayload
        exact .extension tag
      | _ => cases hpayload

theorem samePayload_comm (k : Kind α) (l : Kind β) : k.samePayload l = l.samePayload k := by
  cases k <;> cases l <;>
    simp only [samePayload, Consequence.same, RuleHead.same, Literal.same_comm, BEq.comm]

theorem Equal.samePayload_trans {S : β → γ → Prop} {m : Kind γ} (hkl : k.Equal R l)
    (hlm : l.Equal S m) : k.samePayload m := by
  cases hkl with
  | consequence haction hkind hweight =>
    cases hlm with
    | consequence haction' hkind' hweight' =>
      simp [samePayload, Consequence.same, haction, hkind, haction', hkind',
        BEq.trans hweight hweight']
  | rule hname hactive _ =>
    cases hlm with
    | rule hname' hactive' _ => simp [samePayload, RuleHead.same, hname, hactive, hname', hactive']
  | literal h =>
    cases hlm with
    | literal h' => exact Literal.same_trans (Literal.equal_iff.1 h) (Literal.equal_iff.1 h')
  | _ =>
    -- What the others carry is compared by identity.
    cases hlm
    simp [samePayload]

theorem alike_swap_iff : l.Alike (fun b a => R a b) k ↔ k.Alike R l := by
  have hslot (o : Option α) (p : Option β) :
      Option.Rel (fun b a => R a b) p o ↔ Option.Rel R o p := by
    cases o <;> cases p <;> simp
  rw [alike_iff, alike_iff, samePayload_comm, ← forall₂_swap_iff]
  simp only [hslot]

theorem alike_congr (h : ∀ a ∈ k.operands, ∀ b, R a b ↔ S a b) : k.Alike R l ↔ k.Alike S l := by
  have hslot : ∀ o ∈ k.slots, ∀ p, Option.Rel R o p ↔ Option.Rel S o p := by
    intro o ho p
    cases o with
    | none => cases p <;> simp
    | some a =>
      cases p with
      | none => simp
      | some b => simpa using h a (mem_operands.2 ho) b
  rw [alike_iff, alike_iff, forall₂_congr_of_mem hslot]

/-- Operands may be looked at through functions. -/
theorem alike_map_iff {α' β' : Type} {R : α' → β' → Prop} {f : α → α'} {g : β → β'} :
    (k.map f).Alike R (l.map g) ↔ k.Alike (fun a b => R (f a) (g b)) l := by
  have hslot (o : Option α) (p : Option β) :
      Option.Rel R (o.map f) (p.map g) ↔ Option.Rel (fun a b => R (f a) (g b)) o p := by
    cases o <;> cases p <;> simp
  rw [alike_iff, alike_iff, samePayload_map, slots_map, slots_map, List.forall₂_map_left_iff,
    List.forall₂_map_right_iff]
  simp only [hslot]

theorem alike_mark_iff (executed executed' : Bool) (activations activations' : Nat) :
    (k.mark executed activations).Alike R (l.mark executed' activations') ↔ k.Alike R l := by
  have hpayload : (k.mark executed activations).samePayload (l.mark executed' activations') =
      k.samePayload l := by
    cases k <;> cases l <;> rfl
  have hk : (k.mark executed activations).slots = k.slots := by cases k <;> rfl
  have hl : (l.mark executed' activations').slots = l.slots := by cases l <;> rfl
  rw [alike_iff, alike_iff, hpayload, hk, hl]

theorem Alike.trans {S : β → γ → Prop} {T : α → γ → Prop} {m : Kind γ} (hkl : k.Alike R l)
    (hlm : l.Alike S m) (hT : ∀ a ∈ k.operands, ∀ b c, R a b → S b c → T a c) : k.Alike T m := by
  refine ⟨(equal_iff.2 hkl).samePayload_trans (equal_iff.2 hlm), ?_⟩
  refine forall₂_trans_of_mem hkl.slots hlm.slots fun o ho p q hop hpq => ?_
  cases hop with
  | none =>
    cases hpq
    exact .none
  | @some a b hab =>
    cases hpq with
    | some hbc => exact .some (hT a (mem_operands.2 ho) _ _ hab hbc)

end Payload

end Kind

namespace Node

/-! ## Trees -/

section Trees

/-- Two trees are equal by recursion: their roots carry the same, with equal operands in the same
slots, and have as many generic children, which are equal one by one. -/
inductive Equal : Node → Node → Prop where
  | intro {a b : Node} (hkind : a.kind.Equal Equal b.kind)
      (hchildren : List.Forall₂ Equal a.children b.children) : Equal a b

/-- For the children of a node equality may be replaced by what it comes to. -/
theorem alike_iff_of_mem {S : Node → Node → Prop} {a b : Node}
    (h : ∀ c ∈ a.childNodes, ∀ d, c.Alike d ↔ S c d) :
    a.Alike b ↔ a.kind.Alike S b.kind ∧ List.Forall₂ S a.children b.children := by
  have hoperands : ∀ c ∈ a.kind.operands, ∀ d, c.Alike d ↔ S c d :=
    fun c hc => h c (List.mem_append_left _ hc)
  have hchildren : ∀ c ∈ a.children, ∀ d, c.Alike d ↔ S c d :=
    fun c hc => h c (List.mem_append_right _ hc)
  rw [alike_iff, Kind.alike_congr hoperands, forall₂_congr_of_mem hchildren]

/-- Trees are equal if they are equal by recursion. -/
theorem alike_iff_equal {a b : Node} : a.Alike b ↔ a.Equal b := by
  induction a using Node.induction generalizing b with
  | step a ih =>
    rw [alike_iff_of_mem fun c hc d => ih c hc, ← Kind.equal_iff]
    constructor
    · rintro ⟨hkind, hchildren⟩
      exact .intro hkind hchildren
    · rintro ⟨hkind, hchildren⟩
      exact ⟨hkind, hchildren⟩

theorem alike_comm {a b : Node} : a.Alike b ↔ b.Alike a := by
  induction a using Node.induction generalizing b with
  | step a ih =>
    rw [alike_iff_of_mem fun c hc d => ih c hc, alike_iff, Kind.alike_swap_iff, forall₂_swap_iff]

theorem Alike.symm {a b : Node} (h : a.Alike b) : b.Alike a :=
  alike_comm.1 h

theorem Alike.trans {a b c : Node} (hab : a.Alike b) (hbc : b.Alike c) : a.Alike c := by
  induction a using Node.induction generalizing b c with
  | step a ih =>
    rw [alike_iff] at hab hbc ⊢
    constructor
    · exact hab.1.trans hbc.1 fun a' ha' _ _ => ih a' (List.mem_append_left _ ha')
    · exact forall₂_trans_of_mem hab.2 hbc.2 fun a' ha' _ _ =>
        ih a' (List.mem_append_right _ ha')

end Trees

/-! ## What is not compared -/

section Outlines

/-- A tree without identities, places, parents and notes. -/
def outline (n : Node) : Node :=
  n.remake fun _ kind children => ⟨default, kind.mark false 0, {}, 0, none, children⟩

theorem outline_eq (n : Node) :
    n.outline =
      ⟨default, (n.kind.map outline).mark false 0, {}, 0, none, n.children.map outline⟩ :=
  remake_eq n

/-- Trees are equal if their outlines are. -/
theorem alike_outline_iff {a b : Node} : a.outline.Alike b.outline ↔ a.Alike b := by
  induction a using Node.induction generalizing b with
  | step a ih =>
    rw [alike_iff_of_mem (fun c hc d => (ih c hc).symm), outline_eq a, outline_eq b, alike_iff]
    dsimp only
    rw [Kind.alike_mark_iff, Kind.alike_map_iff, List.forall₂_map_left_iff,
      List.forall₂_map_right_iff]

end Outlines

/-! ## The order of comparison -/

section Order

/-- A comparison of pairs that takes any of those that are left. If the two nodes agree, what is
below them is left as well, in any order. If not, the comparison ends. -/
inductive Compares : List (Node × Node) → Bool → Prop where
  | done : Compares [] true
  | differ {front back : List (Node × Node)} {a b : Node} (h : a.pairChildren? b = none) :
    Compares (front ++ (a, b) :: back) false
  | agree {front back pairs pending : List (Node × Node)} {a b : Node} {answer : Bool}
    (h : a.pairChildren? b = some pairs) (hpending : pending.Perm (front ++ back ++ pairs))
    (hrest : Compares pending answer) : Compares (front ++ (a, b) :: back) answer

theorem sameAll_perm {ps qs : List (Node × Node)} (h : ps.Perm qs) : sameAll ps = sameAll qs := by
  rw [Bool.eq_iff_iff, sameAll_iff, sameAll_iff]
  simp only [h.mem_iff]

theorem Compares.sameAll_eq {ps : List (Node × Node)} {answer : Bool} (h : Compares ps answer) :
    sameAll ps = answer := by
  -- A pair in the middle is as good as one at the front.
  have hmiddle (front back : List (Node × Node)) (p : Node × Node) :
      sameAll (front ++ p :: back) = sameAll (p :: (front ++ back)) :=
    sameAll_perm List.perm_middle
  induction h with
  | done => rw [sameAll]
  | differ h => rw [hmiddle, sameAll_cons, h, Option.any_none]
  | agree h hpending _ ih =>
    rw [hmiddle, sameAll_cons, h, Option.any_some, ← ih, sameAll_perm hpending,
      sameAll_perm List.perm_append_comm]

theorem compares_sameAll (ps : List (Node × Node)) : Compares ps (sameAll ps) := by
  fun_induction sameAll ps with
  | case1 => exact .done
  | case2 a b pending pairs h ih =>
    -- The pair at the front is taken, with none in front of it.
    have hagree : Compares ([] ++ (a, b) :: pending) _ := .agree h List.perm_append_comm ih
    exact hagree
  | case3 a b pending h =>
    have hdiffer : Compares ([] ++ (a, b) :: pending) false := .differ h
    exact hdiffer

/-- Whichever pair is taken next, the comparison comes to the same answer. -/
theorem compares_iff {ps : List (Node × Node)} {answer : Bool} :
    Compares ps answer ↔ sameAll ps = answer := by
  constructor
  · exact Compares.sameAll_eq
  · rintro rfl
    exact compares_sameAll ps

end Order

/-! ## Equality of trees -/

section Main

/-- **Equality of trees is recursive.** Two trees, however deep, are equal if and only if their
roots have the same variant and carry the same, with the same slots filled by operands that are
equal in turn, and have as many generic children, which are equal one by one. This is symmetric and
transitive. Identities, places, parents and the notes of evaluations do not count, at any node, and
the order in which pairs of nodes are compared does not matter either. -/
theorem same_recursive :
    (∀ a b : Node, a.same b ↔ a.Equal b) ∧
      (∀ a b : Node, a.same b = b.same a) ∧
      (∀ a b c : Node, a.same b → b.same c → a.same c) ∧
      (∀ a b a' b' : Node, a'.outline = a.outline → b'.outline = b.outline →
        a'.same b' = a.same b) ∧
      ∀ (a b : Node) (answer : Bool), Compares [(a, b)] answer ↔ a.same b = answer := by
  refine ⟨fun a b => alike_iff_equal, fun a b => ?_, fun a b c => Alike.trans,
    fun a b a' b' ha hb => ?_, fun a b answer => compares_iff⟩
  · rw [Bool.eq_iff_iff]
    exact alike_comm
  · rw [Bool.eq_iff_iff]
    have h := alike_outline_iff (a := a') (b := b')
    rw [ha, hb] at h
    exact h.symm.trans alike_outline_iff

/-- A decision on a number, with nothing to do if that is true. -/
def stopUnless (id : Nat) (x : Float) (executed : Bool) : Node :=
  ⟨⟨id⟩, .decision (some ⟨⟨id + 1⟩, .literal (.number x), {}, 1, some ⟨id⟩, []⟩) none
    (some ⟨⟨id + 2⟩, .consequence { action := "stop", kind := .custom, executed }, {}, id, none,
      []⟩), {}, id, none, []⟩

/-- Both zeros make equal trees, and so does what was executed. -/
theorem same_recursive_zeros :
    (stopUnless 1 0.0 true).same (stopUnless 4 (-0.0) false) ∧
      (stopUnless 4 (-0.0) false).same (stopUnless 7 0.0 false) ∧
      (stopUnless 1 0.0 true).same (stopUnless 7 0.0 false) ∧
      (stopUnless 7 0.0 false).outline = (stopUnless 1 0.0 true).outline ∧
      (stopUnless 7 0.0 false).same (stopUnless 4 (-0.0) false) =
        (stopUnless 1 0.0 true).same (stopUnless 4 (-0.0) false) := by
  obtain ⟨-, -, htrans, houtline, -⟩ := same_recursive
  have hab : (stopUnless 1 0.0 true).same (stopUnless 4 (-0.0) false) := by decide +kernel
  have hbc : (stopUnless 4 (-0.0) false).same (stopUnless 7 0.0 false) := by decide +kernel
  have hca : (stopUnless 7 0.0 false).outline = (stopUnless 1 0.0 true).outline := by
    simp [stopUnless, outline_eq, Kind.map, Kind.mapSlots, Kind.mark]
  exact ⟨hab, hbc, htrans _ _ _ hab hbc, hca, houtline _ _ _ _ hca rfl⟩

end Main

end Node

end Rulebook
