import Rulebook.Proofs.Program.Congruence
import Rulebook.Proofs.Program.State

/-!
# Relations between parses of rules and statements

Rules and statements are put together from expressions and from what rows of them add: a rule is
entered and left, an error is noted, and tokens are passed over behind it. A congruence that says
what is kept by these holds of all items and of whole sources.

## Main definitions

* `Parse.ItemCongruence`: congruences for each number of rules under way, which are kept where a
  rule is read and where an error is noted

## Main results

* `Parse.turn_rel`: each round of a row of items takes a token
* `Parse.item_rel`, `Parse.root_rel`: rules, statements and whole sources are related
-/

namespace Rulebook

namespace Parse

/-! ## Congruences of items -/

variable {τ τ' : Type} [TokenSource τ] [TokenSource τ'] {settings settings' : ParseSettings}

/-- Relations between the computations of two parses, which read the same items. They may depend on
how many rules are under way, and on whether an error was noted. -/
structure ItemCongruence {settings settings' : ParseSettings} (M : Comparison settings settings')
    (τ τ' : Type) [TokenSource τ] [TokenSource τ'] where
  /-- Within a number of rules. -/
  within : Nat → Congruence M τ τ'
  /-- Behind an error, where tokens are passed over. -/
  passing : Nat → Congruence M τ τ'
  /-- Rules and statements that are read in the same place. -/
  item : Node → Node → Prop
  token_start : ∀ {t t'}, M.token t t' → t'.span.start = t.span.start
  /-- Both parses come to their ends. -/
  ends_eof : ∀ {t t'}, M.ends t t' → t'.kind = .eof
  item_node : ∀ {a b}, M.node a b → item a b
  item_depth : ∀ {a b}, item a b → a.depth = b.depth
  item_block : ∀ {ns ns'}, List.Forall₂ item ns ns' →
    ∀ {id id' span span' line line'}, M.Tied id id' → M.Tied span span' → M.Tied line line' →
      item ((Node.linked id .block ns).withSpan span line)
        ((Node.linked id' .block ns').withSpan span' line')
  item_rule : ∀ {name a b}, M.kinds (.identifier name) → item a b →
    ∀ {id id' span span' line line'}, M.Tied id id' → M.Tied span span' → M.Tied line line' →
      item ((Node.linked id (.rule { name } (some a)) []).withSpan span line)
        ((Node.linked id' (.rule { name } (some b)) []).withSpan span' line')
  /-- The brace at the end of a rule is taken. -/
  takeBrace : ∀ {α β : Type} {k n l : Nat} {t t' : Token} {Q : α → β → Prop}
    {f : Token → ParseFrom τ α} {g : Token → ParseFrom τ' β}, M.token t t' → t.kind = .rbrace →
      (0 < n → (within k).Rel (n - 1) .anywhere l Q (f t) (g t')) →
      (within k).Rel n (.at t t') l Q (advance >>= f) (advance >>= g)
  /-- Any token is passed over. -/
  pass : ∀ {α β : Type} {k n l : Nat} {t t' : Token} {Q : α → β → Prop}
    {f : Token → ParseFrom τ α} {g : Token → ParseFrom τ' β}, M.token t t' →
      (0 < n → (passing k).Rel (n - 1) .anywhere l Q (f t) (g t')) →
      (passing k).Rel n (.at t t') l Q (advance >>= f) (advance >>= g)
  inRule : ∀ {α β : Type} {k n l : Nat} {front : Front} {Q : α → β → Prop} {x : ParseFrom τ α}
    {y : ParseFrom τ' β}, (within (k + 1)).Rel n front l Q x y →
      (within k).Rel n front l Q (Parse.inRule x) (Parse.inRule y)
  /-- An error is noted, of a computation that took no token, or took one at least. -/
  attempt : ∀ {α β γ δ : Type} {k n m l : Nat} {front : Front} {R : γ → δ → Prop}
    {Q : α → β → Prop} {x : ParseFrom τ γ} {y : ParseFrom τ' δ}
    {f : Except Error γ → ParseFrom τ α} {g : Except Error δ → ParseFrom τ' β}
    {f' : ParseFrom τ α} {g' : ParseFrom τ' β}, (∀ e, f (.error e) = report e >>= fun _ => f') →
      (∀ e, g (.error e) = report e >>= fun _ => g') → (within k).Rel n .anywhere m R x y →
      (∀ a b, R a b → (within k).Rel m .anywhere l Q (f (.ok a)) (g (.ok b))) →
      (passing k).Rel n front l Q f' g' → (passing k).Rel (n - 1) .anywhere l Q f' g' →
      (within k).Rel n front l Q (Parse.attempt x >>= f) (Parse.attempt y >>= g)
  /-- The token that was taken last is looked at. -/
  previous : ∀ {α β : Type} {k n l : Nat} {Q : α → β → Prop} {f : Token → ParseFrom τ α}
    {g : Token → ParseFrom τ' β},
    (∀ t t', M.Tied t t' → (within k).Rel n .anywhere l Q (f t) (g t')) →
      (within k).Rel n .anywhere l Q (MonadState.get >>= fun s => f s.previous)
        (MonadState.get >>= fun s => g s.previous)

variable {M : Comparison settings settings'} {I : ItemCongruence M τ τ'} {k n l : Nat}
  {insideRule : Bool}

namespace ItemCongruence

variable (I)

/-- Items of two parses for which there is room. -/
def Fits (k : Nat) (a b : Node) : Prop :=
  (I.within k).room a.depth ∧ I.item a b

end ItemCongruence

/-! ## Passing over tokens -/

section Passing

theorem synchronize_rel (fuel fuel' : Nat) (hfuel : n < fuel) (hfuel' : n < fuel') :
    (I.passing k).Rel n .anywhere n (fun _ _ => True) (synchronize insideRule fuel)
      (synchronize insideRule fuel') := by
  induction fuel generalizing n fuel' with
  | zero => exact absurd hfuel (Nat.not_lt_zero n)
  | succ fuel ih =>
    obtain ⟨fuel', rfl⟩ := Nat.exists_eq_succ_of_ne_zero (Nat.ne_zero_of_lt hfuel')
    have hreturn (m : Nat) :
        (I.passing k).Rel m .anywhere m (fun _ _ => True) (pure ()) (pure ()) :=
      (I.passing k).pure trivial
    refine (I.passing k).current fun t t' ht _ => ?_
    rcases ht with ht | ht
    · have htake : (I.passing k).Rel n (.at t t') n (fun _ _ => True)
          (advance >>= fun _ => pure ()) (advance >>= fun _ => pure ()) :=
        I.pass ht fun _ => (I.passing k).loosen (hreturn _) (Nat.sub_le n 1)
      rw [M.token_kind ht]
      cases t.kind with
      | eof | kwRule | kwIf | kwWhen => exact (I.passing k).coarsen (hreturn n)
      | semicolon | kwEnd => exact htake
      | rbrace => exact (I.passing k).ite htake ((I.passing k).coarsen (hreturn n))
      | _ =>
        refine I.pass ht fun hpos => (I.passing k).loosen ?_ (Nat.sub_le n 1)
        exact ih fuel' (by omega) (by omega)
    · rw [M.ends_kind ht, I.ends_eof ht]
      exact (I.passing k).coarsen (hreturn n)

theorem remaining_synchronize_rel :
    (I.passing k).Rel n .anywhere n (fun _ _ => True)
      (MonadState.get >>= fun s => synchronize insideRule s.remaining)
      (MonadState.get >>= fun s => synchronize insideRule s.remaining) :=
  (I.passing k).remaining fun _ fuel fuel' hm hfuel hfuel' =>
    (I.passing k).loosen (synchronize_rel fuel fuel' hfuel hfuel') hm

theorem passOver_rel (mark : Nat) :
    (I.passing k).Rel n .anywhere n (fun _ _ => True) (passOver mark insideRule)
      (passOver mark insideRule) := by
  refine (I.passing k).current fun t t' ht _ => ?_
  have hpass : (I.passing k).Rel n (.at t t') n (fun _ _ => True)
      (MonadState.get >>= fun s => synchronize insideRule s.remaining)
      (MonadState.get >>= fun s => synchronize insideRule s.remaining) :=
    (I.passing k).coarsen remaining_synchronize_rel
  rcases ht with ht | ht
  · rw [M.token_kind ht, I.token_start ht]
    refine (I.passing k).ite (I.pass ht fun _ => ?_) hpass
    exact (I.passing k).loosen remaining_synchronize_rel (Nat.sub_le n 1)
  · simp only [M.ends_kind ht, I.ends_eof ht, bne_self_eq_false, Bool.and_false, Bool.false_and]
    exact hpass

/-- A token that begins nothing is passed over. -/
theorem passOver_rel_at {t t' : Token} (ht : M.token t t')
    (hbrace : t.kind = .rbrace → insideRule = false) :
    (I.passing k).Rel n (.at t t') (n - 1) (fun _ _ => True)
      (passOver t.span.start insideRule) (passOver t.span.start insideRule) := by
  refine (I.passing k).look ?_
  rw [M.token_kind ht, I.token_start ht]
  by_cases hkind : t.kind = .rbrace
  -- A brace is passed over in search of a place to go on, outside of rules.
  · have hcond : (t.span.start == t.span.start && t.kind != .eof && t.kind != .rbrace) = false := by
      simp [hkind]
    rw [hcond, hbrace hkind]
    refine (I.passing k).remaining fun m fuel fuel' hm hfuel hfuel' => ?_
    obtain ⟨fuel, rfl⟩ := Nat.exists_eq_succ_of_ne_zero (Nat.ne_zero_of_lt hfuel)
    obtain ⟨fuel', rfl⟩ := Nat.exists_eq_succ_of_ne_zero (Nat.ne_zero_of_lt hfuel')
    refine (I.passing k).loosen ?_ (Nat.sub_le_sub_right hm 1)
    refine (I.passing k).look ?_
    rw [M.token_kind ht, hkind]
    exact I.pass ht fun _ => (I.passing k).pure trivial
  · have hcond : (t.span.start == t.span.start && t.kind != .eof && t.kind != .rbrace) = true := by
      simp [M.token_ne ht, hkind]
    rw [hcond]
    exact I.pass ht fun _ => remaining_synchronize_rel

end Passing

/-! ## Items -/

section Items

variable {item : ParseFrom τ Node} {item' : ParseFrom τ' Node}

/-- A name that has to be there. -/
theorem expectName_rel {C : Congruence M τ τ'} {what : String} :
    C.Rel n .anywhere n (fun name name' => name' = name ∧ M.kinds (.identifier name))
      (expectName what) (expectName what) := by
  refine C.current fun t t' ht _ => ?_
  rcases ht with ht | ht
  · rw [M.token_kind ht]
    split
    · next name hname =>
      refine C.take ht (by simp [hname]) (by simp [hname]) fun _ => ?_
      exact C.loosen (C.pure ⟨rfl, hname ▸ M.token_kinds ht⟩) (Nat.sub_le n 1)
    · exact C.coarsen C.failExpecting
  -- What the second parse ends in front of is no name either.
  · rw [M.ends_kind ht]
    rcases TokenKind.mem_of_ends (M.ends_stops ht) with h | h | h | h | h <;> rw [h] <;>
      exact C.coarsen C.failExpecting

/-- The brace that has to be there at the end of a rule. -/
theorem expectBrace_rel {what : String} :
    (I.within k).Rel n .anywhere n M.Tied (expect .rbrace what) (expect .rbrace what) := by
  refine (I.within k).isAt_stop .rbrace (by simp) (fun t t' ht hkind => ?_)
    (I.within k).failExpecting fun t t' hends hkind => ?_
  · have h : (I.within k).Rel n (.at t t') n M.Tied (advance >>= pure) (advance >>= pure) :=
      I.takeBrace ht hkind fun _ => (I.within k).loosen ((I.within k).pure (M.tied_token ht))
        (Nat.sub_le n 1)
    rwa [bind_pure, bind_pure] at h
  · exact absurd (hkind.symm.trans (I.ends_eof hends)) (by simp)

variable (hitem : ∀ n, (I.within k).Rel n .anywhere (n - 1) (I.Fits k) item item')
include hitem

/-- A round takes a token: if the item fails at its first one, that is passed over. -/
theorem turn_rel {t t' : Token} (ht : M.token t t')
    (hbrace : t.kind = .rbrace → insideRule = false) :
    (I.within k).Rel n (.at t t') (n - 1) (Option.Rel (I.Fits k))
      (turn item insideRule t.span.start) (turn item' insideRule t'.span.start) := by
  rw [I.token_start ht, turn, turn, accept_bind, accept_bind, isAt_bind, isAt_bind]
  refine (I.within k).look ?_
  rw [M.token_kind ht]
  cases hsemicolon : t.kind == .semicolon with
  | true =>
    have hkind : t.kind = .semicolon := beq_iff_eq.1 hsemicolon
    exact (I.within k).take ht (by simp [hkind]) (by simp [hkind]) fun _ =>
      (I.within k).pure .none
  | false =>
    have hpass {m : Nat} {front : Front} (h : (I.passing k).Rel m front (n - 1) (fun _ _ => True)
        (passOver t.span.start insideRule) (passOver t.span.start insideRule)) :
        (I.passing k).Rel m front (n - 1) (Option.Rel (I.Fits k))
          (passOver t.span.start insideRule >>= fun _ => pure none)
          (passOver t.span.start insideRule >>= fun _ => pure none) :=
      (I.passing k).bind h fun _ _ _ => (I.passing k).pure .none
    exact I.attempt (fun _ => rfl) (fun _ => rfl) (hitem n)
      (fun a b hab => (I.within k).pure (.some hab)) (hpass (passOver_rel_at ht hbrace))
      (hpass (passOver_rel _))

theorem items_rel (fuel fuel' : Nat) (hfuel : n < fuel) (hfuel' : n < fuel')
    {done done' : List Node} (hdone : List.Forall₂ (I.Fits k) done done') :
    (I.within k).Rel n .anywhere n (List.Forall₂ (I.Fits k)) (items item insideRule fuel done)
      (items item' insideRule fuel' done') := by
  induction fuel generalizing n fuel' done done' with
  | zero => exact absurd hfuel (Nat.not_lt_zero n)
  | succ fuel ih =>
    obtain ⟨fuel', rfl⟩ := Nat.exists_eq_succ_of_ne_zero (Nat.ne_zero_of_lt hfuel')
    have hend : (I.within k).Rel n .anywhere n (List.Forall₂ (I.Fits k)) (pure done.reverse)
        (pure done'.reverse) := (I.within k).pure (List.forall₂_reverse_iff.2 hdone)
    rw [items_succ, items_succ]
    refine (I.within k).current fun t t' ht hpos => ?_
    rcases ht with ht | ht
    · have hpos := hpos ht
      rw [M.token_kind ht]
      cases hc : (t.kind == .eof || (insideRule && t.kind == .rbrace)) with
      | true => exact (I.within k).coarsen hend
      | false =>
        have hbrace (hkind : t.kind = .rbrace) : insideRule = false := by
          rw [hkind] at hc
          simpa using hc
        refine (I.within k).bind (turn_rel hitem ht hbrace) fun new new' hnew => ?_
        have hmore : List.Forall₂ (I.Fits k) (new.toList ++ done) (new'.toList ++ done') := by
          cases hnew with
          | none => exact hdone
          | some h => exact .cons h hdone
        exact (I.within k).loosen (ih fuel' (by omega) (by omega) hmore) (Nat.sub_le n 1)
    · rw [M.ends_kind ht, I.ends_eof ht]
      exact (I.within k).coarsen hend

theorem remaining_items_rel :
    (I.within k).Rel n .anywhere n (List.Forall₂ (I.Fits k))
      (MonadState.get >>= fun s => items item insideRule s.remaining [])
      (MonadState.get >>= fun s => items item' insideRule s.remaining []) :=
  (I.within k).remaining (f := fun fuel => items item insideRule fuel [])
    (g := fun fuel => items item' insideRule fuel []) fun _ fuel fuel' hm hfuel hfuel' =>
      (I.within k).loosen (items_rel hitem fuel fuel' hfuel hfuel' .nil) hm

omit hitem in
theorem rule_rel (hitem : ∀ n, (I.within (k + 1)).Rel n .anywhere (n - 1)
      (I.Fits (k + 1)) item item') {t t' : Token} (ht : M.token t t') (hrule : t.kind = .kwRule) :
    (I.within k).Rel n (.at t t') (n - 1) (I.Fits k) (rule item) (rule item') := by
  have hstart : M.Tied t t' := M.tied_token ht
  refine (I.within k).take ht (by simp [hrule]) (by simp [hrule]) fun _ => ?_
  refine (I.within k).bind expectName_rel fun name name' hname => ?_
  obtain ⟨rfl, hname⟩ := hname
  refine (I.within k).bind ((I.within k).expect .lbrace rfl) fun brace brace' hbrace => ?_
  refine (I.within k).bind (I.inRule (remaining_items_rel hitem))
    fun statements statements' hs => ?_
  refine (I.within k).bind expectBrace_rel fun close close' hclose => ?_
  refine (I.within k).bind (R := I.item) ((I.within k).make fun id id' hid => ?_)
    fun body body' hbody => ?_
  · exact I.item_block ((List.forall₂_and_left _ _).1 hs).2 hid
      ((hbrace.map Token.span).map₂ Span.merge (hclose.map Token.span)) (hstart.map Token.line)
  refine (I.within k).bind (R := I.item) ((I.within k).make fun id id' hid => ?_) fun a b hab => ?_
  · exact I.item_rule hname hbody hid
      ((hstart.map Token.span).map₂ Span.merge (hclose.map Token.span)) (hstart.map Token.line)
  rw [← I.item_depth hab]
  exact (I.within k).bind ((I.within k).checkHeight _) fun _ _ hroom =>
    (I.within k).pure ⟨hroom, hab⟩

omit hitem in
/-- What is read as a statement is an expression. -/
theorem statement_rel {C : Congruence M τ τ'} {operand : OperandParser τ}
    {operand' : OperandParser τ'}
    (hop : ∀ n strength context, C.Rel n .anywhere (n - 1)
      (fun a b => M.node a b ∧ C.room a.depth) (operand strength context)
      (operand' strength context))
    (hstuck : ∀ kind : TokenKind, kind.begins = false → ∀ strength context,
      Stuck kind (operand strength context)) :
    C.Rel n .anywhere (n - 1) (fun a b => M.node a b ∧ C.room a.depth) (statement settings operand)
      (statement settings' operand') := by
  have hoperands : C.Operands (n + 1) operand operand' :=
    ⟨fun m _ strength context => C.weaken (hop m strength context) (Nat.sub_le m 1)
      fun _ _ h => h.1, hstuck⟩
  refine C.current fun t t' ht _ => C.coarsen ?_
  refine C.bind (hop n _ _) fun a b hab => ?_
  refine C.accept .kwThen rfl (fun _ => C.loosen ?_ (Nat.sub_le _ 1)) ?_
  · refine C.bind (decisionTail_rel hoperands (by omega) hab.1 (M.tied_met ht))
      fun decision decision' hd => ?_
    rw [← M.node_depth hd]
    exact C.bind (C.checkHeight _) fun _ _ hroom => C.pure ⟨hd, hroom⟩
  · exact C.post (toConsequence_rel hab.1) fun c d h => ⟨h.1, C.room_mono h.2 hab.2⟩

omit hitem in
theorem item_zero {τ : Type} [TokenSource τ] (settings : ParseSettings) :
    (Parse.item settings 0 : ParseFrom τ Node) =
      throw (.tooDeep "parser" settings.maxDepth) :=
  rfl

omit hitem in
/-- Rules and statements are related, and take at least one token. -/
theorem item_rel {levels : Nat → Nat → Prop} (h : ∀ k, (I.within k).Nests levels) {i j : Nat}
    (hij : levels i j) :
    (I.within k).Rel n .anywhere (n - 1) (I.Fits k) (Parse.item settings i)
      (Parse.item settings' j) := by
  induction i generalizing k n j with
  | zero =>
    rw [item_zero]
    cases j with
    | zero => exact (h k).neither hij
    | succ j => exact (h k).right hij
  | succ i ih =>
    cases j with
    | zero => exact (h k).left hij
    | succ j =>
      refine (I.within k).isAt_stop .kwRule (by simp) (fun t t' ht hrule => ?_) ?_
        fun t t' hends hrule => ?_
      · exact (h k).nested hij (rule_rel (fun n => ih ((h k).below hij)) ht hrule)
      · have hstatement : (I.within k).Rel n .anywhere (n - 1) _
            (statement settings (expr settings (i + 1)))
            (statement settings' (expr settings' (j + 1))) :=
          statement_rel (fun _ strength context => expr_rel (h k) hij strength context)
            fun _ hkind strength context => stuck_expr hkind (i + 1) strength context
        exact (I.within k).post hstatement fun a b hab => ⟨hab.2, I.item_node hab.1⟩
      · exact absurd (hrule.symm.trans (I.ends_eof hends)) (by simp)

omit hitem in
theorem root_eq {τ : Type} [TokenSource τ] (settings : ParseSettings) :
    (root settings : ParseFrom τ Node) = current >>= fun start =>
      (MonadState.get >>= fun s =>
          items (Parse.item settings settings.maxDepth) false s.remaining [])
        >>= fun ns => MonadState.get >>= fun s =>
          make (Node.block ns) (start.span.merge s.previous.span) 1 :=
  rfl

omit hitem in
/-- Whole sources are related. -/
theorem root_rel {levels : Nat → Nat → Prop} (h : ∀ k, (I.within k).Nests levels)
    (hlevels : levels settings.maxDepth settings'.maxDepth) :
    (I.within 0).Rel n .anywhere n
      (fun a b => I.item a b ∧ ∀ c ∈ a.childNodes, (I.within 0).room c.depth)
      (root settings) (root settings') := by
  have hitem (n : Nat) := item_rel (n := n) (k := 0) h hlevels
  rw [root_eq, root_eq]
  refine (I.within 0).current fun start start' ht _ => (I.within 0).coarsen ?_
  refine (I.within 0).bind (remaining_items_rel hitem) fun ns ns' hns => ?_
  obtain ⟨hrooms, hitems⟩ := (List.forall₂_and_left _ _).1 hns
  refine I.previous (f := fun last => make (Node.block ns) (start.span.merge last.span) 1)
    (g := fun last => make (Node.block ns') (start'.span.merge last.span) 1)
    fun last last' hlast => ?_
  refine (I.within 0).make fun id id' hid => ⟨?_, fun c hc => ?_⟩
  · exact I.item_block hitems hid
      (((M.tied_met ht).map Token.span).map₂ Span.merge (hlast.map Token.span)) (M.tied_self 1)
  · change c ∈ ((Node.linked id .block ns).withSpan _ _).childNodes at hc
    rw [Node.childNodes_withSpan, Node.childNodes_linked] at hc
    obtain ⟨d, hd, rfl⟩ := List.mem_map.1 hc
    rw [Node.depth_withParent]
    exact hrooms d hd

end Items

end Parse

end Rulebook
