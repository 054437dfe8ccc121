import Rulebook.Proofs.Program.Shape
import Rulebook.Proofs.Program.Yield

/-!
# Every token is taken once

A parse comes to the end of its source, however malformed that is, and takes each significant token
on the way there, one behind the other. It notes no more errors than it takes tokens: an item that
fails has taken a token for its error, or the token that it failed at is passed over.

## Main definitions

* `Parse.Takes`: the tokens that a computation takes, in their order
* `ParseState.allowance`: the errors so far and the tokens that are left
* `Parse.Thrifty`: a computation that spends a part of the allowance, or changes nothing

## Main results

* `Parse.Akin.consumes`: what is taken are the tokens in front of those that are left
* `Parse.items_ends`: a row of items ends at the end, and keeps within its allowance
* `Program.parse_takes`: a parse takes every token of its source once
-/

namespace Rulebook

namespace ParseState

section Supply

/-- Errors that were noted, and tokens that are left to fail at. -/
def allowance (s : ParseState) : Nat :=
  s.errors.size + s.left

end Supply

end ParseState

namespace Parse

open ParseState (Level Moved)

/-! ## Tokens that are taken -/

section Takes

/-- The tokens that a computation takes from a state on, in their order. No other computation than
`advance` takes any. -/
inductive Takes (settings : ParseSettings) :
    {α : Type} → Parse α → ParseState → List Token → Prop
  | pure {α : Type} {a : α} {s : ParseState} : Takes settings (pure a) s []
  | throw {α : Type} {e : Error} {s : ParseState} : Takes settings (throw e : Parse α) s []
  | get {s : ParseState} : Takes settings MonadState.get s []
  | make {node : Fresh Node} {span : Span} {line : Nat} {s : ParseState} :
    Takes settings (make node span line) s []
  | report {e : Error} {s : ParseState} : Takes settings (report e) s []
  | advance {s : ParseState} (h : s.current.kind ≠ .eof) : Takes settings advance s [s.current]
  | bind_ok {α β : Type} {x : Parse α} {f : α → Parse β} {s t : ParseState} {a : α}
    {taken more : List Token} (hx : Takes settings x s taken) (hrun : EStateM.run x s = .ok a t)
    (hf : Takes settings (f a) t more) : Takes settings (x >>= f) s (taken ++ more)
  | bind_error {α β : Type} {x : Parse α} {f : α → Parse β} {s t : ParseState} {e : Error}
    {taken : List Token} (hx : Takes settings x s taken) (hrun : EStateM.run x s = .error e t) :
    Takes settings (x >>= f) s taken
  | nested {α : Type} {x : Parse α} {s : ParseState} {taken : List Token}
    (h : s.depth < settings.maxDepth)
    (hx : Takes settings x { s with depth := s.depth + 1 } taken) :
    Takes settings (nested settings x) s taken
  | refused {α : Type} {x : Parse α} {s : ParseState} (h : settings.maxDepth ≤ s.depth) :
    Takes settings (Parse.nested settings x) s []
  | inRule {α : Type} {x : Parse α} {s : ParseState} {taken : List Token}
    (hx : Takes settings x { s with nesting := s.nesting + 1 } taken) :
    Takes settings (inRule x) s taken
  | attempt {α : Type} {x : Parse α} {s : ParseState} {taken : List Token}
    (hx : Takes settings x s taken) : Takes settings (attempt x) s taken

/-- A computation ended in a state, with the tokens that are left behind those that were taken.
Errors are noted only if that is allowed for. -/
structure Consumes (settings : ParseSettings) (loud : Prop) {α : Type} (x : Parse α)
    (s t : ParseState) (taken : List Token) : Prop where
  takes : Takes settings x s taken
  supply : s.supply = taken ++ t.supply
  quiet : ¬loud → t.errors = s.errors

/-- The state that a computation ends in. -/
def stateAfter {α : Type} (x : Parse α) (s : ParseState) : ParseState :=
  match EStateM.run x s with
  | .ok _ t => t
  | .error _ t => t

variable {α β : Type} {x : Parse α} {s t : ParseState}

theorem stateAfter_ok {a : α} (h : EStateM.run x s = .ok a t) : stateAfter x s = t := by
  rw [stateAfter, h]

theorem stateAfter_error {e : Error} (h : EStateM.run x s = .error e t) : stateAfter x s = t := by
  rw [stateAfter, h]

theorem stateAfter_bind_ok {f : α → Parse β} {a : α} (h : EStateM.run x s = .ok a t) :
    stateAfter (x >>= f) s = stateAfter (f a) t := by
  rw [stateAfter, EStateM.run_bind, h, stateAfter]

theorem stateAfter_bind_error {f : α → Parse β} {e : Error} (h : EStateM.run x s = .error e t) :
    stateAfter (x >>= f) s = t := by
  rw [stateAfter, EStateM.run_bind, h]

theorem run_current_bind (f : Token → Parse α) (s : ParseState) :
    EStateM.run (current >>= f) s = EStateM.run (f s.current) s :=
  rfl

theorem stateAfter_isAt_bind (kind : TokenKind) (f : Bool → Parse α) (s : ParseState) :
    stateAfter (isAt kind >>= f) s = stateAfter (f (s.current.kind == kind)) s :=
  rfl

theorem stateAfter_nested {settings : ParseSettings} (h : s.depth < settings.maxDepth) :
    stateAfter (nested settings x) s =
      { stateAfter x { s with depth := s.depth + 1 } with
        depth := (stateAfter x { s with depth := s.depth + 1 }).depth - 1 } := by
  simp only [stateAfter, EStateM.run, nested, if_neg (Nat.not_le.2 h)]
  cases x _ <;> rfl

theorem stateAfter_refused {settings : ParseSettings} (h : settings.maxDepth ≤ s.depth) :
    stateAfter (nested settings x) s = s := by
  simp only [stateAfter, EStateM.run, nested, if_pos h]

theorem stateAfter_inRule : stateAfter (inRule x) s =
    { stateAfter x { s with nesting := s.nesting + 1 } with
      nesting := (stateAfter x { s with nesting := s.nesting + 1 }).nesting - 1 } := by
  simp only [stateAfter, EStateM.run, inRule]
  cases x _ <;> rfl

/-- What a computation takes are the tokens in front of those that are left. -/
theorem Akin.consumes {settings : ParseSettings} {loud : Prop} {n l : Nat} {P : Known}
    {Q : α → β → Prop} {y : Parse β} (h : Akin settings settings loud n l P Q x y)
    (hs : Terminated (s.current :: s.rest)) (hn : s.left ≤ n) (hP : P s.current s.nextKind) :
    ∃ taken, Consumes settings loud x s (stateAfter x s) taken := by
  induction h generalizing s with
  | pure _ => exact ⟨[], .pure, rfl, fun _ => rfl⟩
  | throw e _ => exact ⟨[], .throw, rfl, fun _ => rfl⟩
  | refused _ => exact ⟨[], .throw, rfl, fun _ => rfl⟩
  | weaken _ hn' _ hP' _ ih => exact ih hs (hn.trans hn') (hP' _ _ hP)
  | bind hx hf ihx ihf =>
    obtain ⟨taken, htaken⟩ := ihx hs hn hP
    rcases hx.runs hs hn hP with ⟨a, b, t, hr, ht, -, hl, hq⟩ | ⟨e, t, hr, -⟩
    · obtain ⟨more, hmore⟩ := ihf _ _ hq ht hl trivial
      rw [stateAfter_ok hr] at htaken
      rw [stateAfter_bind_ok hr]
      refine ⟨taken ++ more, .bind_ok htaken.takes hr hmore.takes, ?_, fun hquiet => ?_⟩
      · rw [htaken.supply, hmore.supply, List.append_assoc]
      · rw [hmore.quiet hquiet, htaken.quiet hquiet]
    · rw [stateAfter_error hr] at htaken
      rw [stateAfter_bind_error hr]
      exact ⟨taken, .bind_error htaken.takes hr, htaken.supply, htaken.quiet⟩
  | get _ ih =>
    obtain ⟨more, hmore⟩ := ih s s (.refl hs) hn hP hs (Nat.le_refl _) ⟨rfl, rfl⟩
    exact ⟨[] ++ more, .bind_ok .get rfl hmore.takes, hmore.supply, hmore.quiet⟩
  | advance hP' _ ih =>
    have hne := hP' _ _ hP
    have hleft := ParseState.left_advance hs hne
    have hbehind := (Level.refl hs).advance hne
    obtain ⟨more, hmore⟩ := ih s.current s.nextKind hP (by omega) hbehind.terminated (by omega)
      (ParseState.kind_current_advance hs hne)
    refine ⟨[s.current] ++ more, .bind_ok (.advance hne) rfl hmore.takes, ?_, fun hquiet => ?_⟩
    · rw [ParseState.supply_advance hs hne, hmore.supply]
      rfl
    · rw [← s.errors_advance]
      exact hmore.quiet hquiet
  | make _ => exact ⟨[], .make, rfl, fun _ => rfl⟩
  | nested _ ih =>
    by_cases hdepth : settings.maxDepth ≤ s.depth
    · rw [stateAfter_refused hdepth]
      exact ⟨[], .refused hdepth, rfl, fun _ => rfl⟩
    · obtain ⟨taken, htaken⟩ := @ih { s with depth := s.depth + 1 } hs hn hP
      rw [stateAfter_nested (Nat.not_le.1 hdepth)]
      exact ⟨taken, .nested (Nat.not_le.1 hdepth) htaken.takes, htaken.supply, htaken.quiet⟩
  | inRule _ ih =>
    obtain ⟨taken, htaken⟩ := @ih { s with nesting := s.nesting + 1 } hs hn hP
    rw [stateAfter_inRule]
    exact ⟨taken, .inRule htaken.takes, htaken.supply, htaken.quiet⟩
  | @attempt _ _ _ _ _ _ _ _ _ _ x _ f _ f' _ hloud hf _ hx _ _ _ ihx ihok ihstill ihmoved =>
    obtain ⟨taken, htaken⟩ := ihx hs hn hP
    rcases hx.runs hs hn hP with ⟨a, b, t, hr, ht, -, hl, hq⟩ | ⟨e, t, hr, ht, hm⟩
    · obtain ⟨more, hmore⟩ := ihok _ _ hq ht hl trivial
      have hattempt := run_attempt_ok hr
      rw [stateAfter_ok hr] at htaken
      rw [stateAfter_bind_ok hattempt]
      refine ⟨taken ++ more, .bind_ok (.attempt htaken.takes) hattempt hmore.takes, ?_,
        fun hquiet => absurd hloud hquiet⟩
      rw [htaken.supply, hmore.supply, List.append_assoc]
    · have hattempt := run_attempt_error hr
      rw [stateAfter_error hr] at htaken
      -- What follows the error takes the rest, from where the computation failed.
      have hafter : ∃ more, Consumes settings loud (f' e) { t with errors := t.errors.push e }
          (stateAfter (f' e) { t with errors := t.errors.push e }) more := by
        rcases known_of_moved hm hn hP with ⟨hleft, hknown⟩ | hleft
        · exact ihstill e ht hleft hknown
        · exact ihmoved e ht hleft trivial
      obtain ⟨more, hmore⟩ := hafter
      rw [stateAfter_bind_ok hattempt, hf, stateAfter_bind_ok (run_report e t)]
      refine ⟨taken ++ ([] ++ more), .bind_ok (.attempt htaken.takes) hattempt ?_, ?_,
        fun hquiet => absurd hloud hquiet⟩
      · rw [hf]
        exact .bind_ok .report (run_report e t) hmore.takes
      · rw [htaken.supply, List.nil_append, List.append_assoc, ← hmore.supply]
        rfl

end Takes

/-! ## Errors and tokens -/

section Thrift

variable {α β γ : Type} {x : Parse α}

/-- A computation notes no more errors than it takes tokens. -/
def InAllowance (x : Parse α) : Prop :=
  ∀ s : ParseState, Terminated (s.current :: s.rest) →
    Terminated ((stateAfter x s).current :: (stateAfter x s).rest) ∧
      (stateAfter x s).allowance ≤ s.allowance

/-- From a state on a computation takes no token and notes no error, or it notes fewer errors than
it takes tokens. -/
def Spends (x : Parse α) (s : ParseState) : Prop :=
  ((stateAfter x s).current = s.current ∧ (stateAfter x s).rest = s.rest ∧
      (stateAfter x s).errors = s.errors) ∨
    (stateAfter x s).allowance < s.allowance

/-- A computation that notes fewer errors than it takes tokens, or does neither. -/
def Thrifty (x : Parse α) : Prop :=
  ∀ s : ParseState, Terminated (s.current :: s.rest) → Spends x s

/-- Computations that are akin to others end somewhere in front of the end. -/
theorem Akin.after {settings : ParseSettings} {loud : Prop} {n l : Nat} {P : Known}
    {Q : α → β → Prop} {y : Parse β} (h : Akin settings settings loud n l P Q x y) {s : ParseState}
    (hs : Terminated (s.current :: s.rest)) (hn : s.left ≤ n) (hP : P s.current s.nextKind) :
    Terminated ((stateAfter x s).current :: (stateAfter x s).rest) ∧
      Proceeds s (stateAfter x s) := by
  have hends := h.ends hs hn hP
  rw [stateAfter]
  generalize EStateM.run x s = r at hends ⊢
  cases hends with
  | ok ht hm _ _ => exact ⟨ht, hm⟩
  | error ht hm => exact ⟨ht, hm⟩

section Quiet

variable {settings : ParseSettings} {l : Nat → Nat} {Q : α → β → Prop} {y : Parse β}
  (h : ∀ n, Akin settings settings False n (l n) .nothing Q x y)
include h

theorem errors_eq_of_quiet {s : ParseState} (hs : Terminated (s.current :: s.rest)) :
    (stateAfter x s).errors = s.errors := by
  obtain ⟨_, hconsumes⟩ := (h s.left).consumes hs (Nat.le_refl _) trivial
  exact hconsumes.quiet not_false

/-- What notes no errors spends its allowance on tokens only. -/
theorem thrifty_of_quiet : Thrifty x := by
  intro s hs
  obtain ⟨-, hm⟩ := (h s.left).after hs (Nat.le_refl _) trivial
  have herrors := errors_eq_of_quiet h hs
  rcases hm.moved with ⟨hcurrent, hrest⟩ | ⟨hlt, -⟩
  · exact .inl ⟨hcurrent, hrest, herrors⟩
  · refine .inr ?_
    rw [ParseState.allowance, herrors]
    exact Nat.add_lt_add_left hlt _

theorem inAllowance_of_quiet : InAllowance x := by
  intro s hs
  obtain ⟨hlevel, hm⟩ := (h s.left).after hs (Nat.le_refl _) trivial
  refine ⟨hlevel, ?_⟩
  rw [ParseState.allowance, errors_eq_of_quiet h hs]
  exact Nat.add_le_add_left hm.moved.left_le _

end Quiet

/-- After an error this is noted, and nothing else while tokens are passed over. -/
theorem errors_recover {e : Error} {mark : Nat} {insideRule : Bool} {u v : ParseState}
    (hu : Terminated (u.current :: u.rest))
    (hv : EStateM.run (recover e mark insideRule) u = .ok () v) :
    v.errors = u.errors.push e ∧ Terminated (v.current :: v.rest) ∧
      v.allowance ≤ ParseState.allowance { u with errors := u.errors.push e } := by
  have hpass (n : Nat) : Akin {} {} False n n .nothing (fun _ _ => True)
      (passOver mark insideRule) (passOver mark insideRule) := passOver_akin rfl mark
  have hafter := stateAfter_ok hv
  rw [recover_eq, stateAfter_bind_ok (run_report e u)] at hafter
  subst hafter
  exact ⟨errors_eq_of_quiet hpass hu,
    inAllowance_of_quiet hpass { u with errors := u.errors.push e } hu⟩

theorem InAllowance.bind {f : α → Parse β} (hx : InAllowance x) (hf : ∀ a, InAllowance (f a)) :
    InAllowance (x >>= f) := by
  intro s hs
  obtain ⟨hlevel, hle⟩ := hx s hs
  cases hr : EStateM.run x s with
  | ok a t =>
    rw [stateAfter_ok hr] at hlevel hle
    obtain ⟨hlevel', hle'⟩ := hf a t hlevel
    rw [stateAfter_bind_ok hr]
    exact ⟨hlevel', hle'.trans hle⟩
  | error e t =>
    rw [stateAfter_error hr] at hlevel hle
    rw [stateAfter_bind_error hr]
    exact ⟨hlevel, hle⟩

theorem inAllowance_pure (a : α) : InAllowance (pure a) :=
  fun _ hs => ⟨hs, Nat.le_refl _⟩

theorem inAllowance_make (node : Fresh Node) (span : Span) (line : Nat) :
    InAllowance (make node span line) :=
  fun _ hs => ⟨hs, Nat.le_refl _⟩

theorem inAllowance_inRule (hx : InAllowance x) : InAllowance (inRule x) := by
  intro s hs
  rw [stateAfter_inRule]
  exact hx { s with nesting := s.nesting + 1 } hs

theorem inAllowance_expect {kind : TokenKind} (heof : kind ≠ .eof) (what : String) :
    InAllowance (expect kind what) := by
  intro s hs
  rw [expect, stateAfter_isAt_bind]
  cases hkind : s.current.kind == kind with
  | true =>
    have hne : s.current.kind ≠ .eof := by rwa [beq_iff_eq.1 hkind]
    have hadvance : stateAfter advance s = s.advance := rfl
    have hleft := ParseState.left_advance hs hne
    rw [if_pos rfl, hadvance]
    refine ⟨((Level.refl hs).advance hne).terminated, ?_⟩
    rw [ParseState.allowance, s.errors_advance, ParseState.allowance]
    omega
  | false =>
    have hfail : stateAfter (failExpecting what : Parse Token) s = s := rfl
    rw [if_neg Bool.false_ne_true, hfail]
    exact ⟨hs, Nat.le_refl _⟩

/-- A token that is taken leaves room for an error. -/
theorem allowance_advance {f : Token → Parse α} (hf : ∀ t, InAllowance (f t)) {s : ParseState}
    (hs : Terminated (s.current :: s.rest)) (hne : s.current.kind ≠ .eof) :
    (stateAfter (advance >>= f) s).allowance < s.allowance := by
  have hrun : EStateM.run advance s = .ok s.current s.advance := rfl
  have hleft := ParseState.left_advance hs hne
  obtain ⟨-, hle⟩ := hf s.current s.advance ((Level.refl hs).advance hne).terminated
  rw [stateAfter_bind_ok hrun]
  refine Nat.lt_of_le_of_lt hle ?_
  rw [ParseState.allowance, s.errors_advance, ParseState.allowance]
  omega

theorem spends_nested {settings : ParseSettings} {s : ParseState}
    (hx : Spends x { s with depth := s.depth + 1 }) : Spends (nested settings x) s := by
  by_cases hdepth : settings.maxDepth ≤ s.depth
  · refine .inl ?_
    rw [stateAfter_refused hdepth]
    exact ⟨rfl, rfl, rfl⟩
  · rw [Spends, stateAfter_nested (Nat.not_le.1 hdepth)]
    exact hx

end Thrift

/-! ## Rows of items -/

section Items

variable {settings : ParseSettings} {levels : Nat} {insideRule : Bool}
  (hthrifty : Thrifty (item settings levels))
include hthrifty

/-- A round takes a token for the error that it may note. -/
theorem allowance_turn {s : ParseState} (hs : Terminated (s.current :: s.rest))
    (hne : s.current.kind ≠ .eof) (hbrace : s.current.kind = .rbrace → insideRule = false) :
    ∃ new t, EStateM.run (turn (item settings levels) insideRule s.current.span.start) s =
        .ok new t ∧
      Terminated (t.current :: t.rest) ∧ t.left < s.left ∧ t.allowance ≤ s.allowance := by
  obtain ⟨new, t, hrun, hleads, hlt⟩ := turn_stops settings levels hs hne hbrace
  refine ⟨new, t, hrun, hleads.plain.terminated, hlt, ?_⟩
  -- One error more is paid for by the token.
  have hpaid (h : t.errors.size ≤ s.errors.size + 1) : t.allowance ≤ s.allowance := by
    rw [ParseState.allowance, ParseState.allowance]
    omega
  by_cases hsemicolon : s.current.kind = .semicolon
  · rw [run_turn_semicolon insideRule _ hsemicolon] at hrun
    cases hrun
    exact hpaid (by rw [s.errors_advance]; exact Nat.le_succ _)
  rw [run_turn insideRule _ hsemicolon] at hrun
  have hspent := hthrifty s hs
  cases hr : EStateM.run (item settings levels) s with
  | ok n u =>
    rw [hr] at hrun
    cases hrun
    rw [Spends, stateAfter_ok hr] at hspent
    rcases hspent with ⟨-, -, herrors⟩ | hspent
    · exact hpaid (by rw [herrors]; exact Nat.le_succ _)
    · exact Nat.le_of_lt hspent
  | error e u =>
    have hu : Terminated (u.current :: u.rest) := (leads_of_run_item hs hr).plain.terminated
    obtain ⟨⟨⟩, v, hv⟩ := recover_total e s.current.span.start insideRule u
    rw [hr] at hrun
    dsimp only at hrun
    rw [EStateM.run_bind, hv] at hrun
    cases hrun
    obtain ⟨herrors, -, hle'⟩ := errors_recover hu hv
    rw [Spends, stateAfter_error hr] at hspent
    rcases hspent with ⟨-, -, hstill⟩ | hspent
    · refine hpaid ?_
      rw [herrors, Array.size_push, hstill]
    · have hpush : ParseState.allowance { u with errors := u.errors.push e } = u.allowance + 1 := by
        rw [ParseState.allowance, ParseState.allowance, Array.size_push]
        exact Nat.add_right_comm _ _ _
      omega

/-- A row of items ends at the end, or in front of the brace that closes it. -/
theorem items_ends (insideRule : Bool) (fuel : Nat) {s : ParseState}
    (hs : Terminated (s.current :: s.rest)) (hfuel : s.left < fuel) (done : List Node) :
    ∃ ns t, EStateM.run (items (item settings levels) insideRule fuel done) s = .ok ns t ∧
      Terminated (t.current :: t.rest) ∧
      (t.current.kind = .eof ∨ insideRule = true ∧ t.current.kind = .rbrace) ∧
      t.allowance ≤ s.allowance :=
  exists_run_items (P := fun s t => t.allowance ≤ s.allowance) (fun _ => Nat.le_refl _)
    (fun h h' => h'.trans h) (fun _ hs hne hbrace => allowance_turn hthrifty hs hne hbrace) fuel hs
    hfuel done

/-- The token that a rule begins with is taken beside those that are taken for errors in it. -/
theorem allowance_rule (s : ParseState) (hs : Terminated (s.current :: s.rest))
    (hne : s.current.kind ≠ .eof) :
    (stateAfter (rule (item settings levels)) s).allowance < s.allowance := by
  have hname (what : String) : InAllowance (expectName what) := by
    have hquiet (n : Nat) : Akin settings settings False n n .nothing _ (expectName what)
        (expectName what) := expectName_rel (C := akin rfl False)
    exact inAllowance_of_quiet hquiet
  have hcheck (height : Nat) : InAllowance (checkHeight height) := by
    have hquiet (n : Nat) : Akin settings settings False n n .nothing (fun _ _ => True)
        (checkHeight height) (checkHeight height) := .checkHeight rfl
    exact inAllowance_of_quiet hquiet
  have hbody : InAllowance
      (MonadState.get >>= fun s => items (item settings levels) true s.remaining []) := by
    intro s hs
    obtain ⟨ns, t, hrun, ht, -, hle⟩ :=
      items_ends hthrifty true s.remaining hs s.left_lt_remaining []
    have hafter : stateAfter
        (MonadState.get >>= fun s => items (item settings levels) true s.remaining []) s = t :=
      stateAfter_ok hrun
    rw [hafter]
    exact ⟨ht, hle⟩
  refine allowance_advance (fun start => ?_) hs hne
  refine (hname _).bind fun name => (inAllowance_expect (by simp) _).bind fun brace => ?_
  refine (inAllowance_inRule hbody).bind fun statements => ?_
  refine (inAllowance_expect (by simp) _).bind fun close => ?_
  refine (inAllowance_make _ _ _).bind fun body => (inAllowance_make _ _ _).bind fun n => ?_
  exact (hcheck n.depth).bind fun _ => inAllowance_pure n

omit hthrifty in
/-- Rules and statements note fewer errors than they take tokens. -/
theorem thrifty_item (settings : ParseSettings) (levels : Nat) :
    Thrifty (item settings levels) := by
  have hstatement (levels : Nat) : Thrifty (statement settings (expr settings levels)) :=
    thrifty_of_quiet fun _ => statement_akin (.refl settings levels)
  induction levels with
  | zero => exact hstatement 0
  | succ levels ih =>
    intro s hs
    rw [Spends, item, stateAfter_isAt_bind]
    cases hrule : s.current.kind == .kwRule with
    | true =>
      have hne : s.current.kind ≠ .eof := by
        rw [beq_iff_eq.1 hrule]
        simp
      exact spends_nested (.inr (allowance_rule ih { s with depth := s.depth + 1 } hs hne))
    | false => exact hstatement (levels + 1) s hs

end Items

/-! ## Whole sources -/

section Root

variable (settings : ParseSettings)

/-- The items of a source are read up to its end, and their errors are paid for by tokens. -/
theorem root_ends {start : ParseState} (h : Terminated (start.current :: start.rest)) :
    ∃ tree s, EStateM.run (root settings) start = .ok tree s ∧ s.current.kind = .eof ∧
      Terminated (s.current :: s.rest) ∧ s.allowance ≤ start.allowance := by
  obtain ⟨ns, t, hrun, ht, hend, hle⟩ :=
    items_ends (thrifty_item settings settings.maxDepth) false start.remaining h
      start.left_lt_remaining []
  have heof : t.current.kind = .eof := hend.resolve_right fun h => Bool.false_ne_true h.1
  exact ⟨_, _, run_root hrun, heof, ht, hle⟩

/-- A source is taken token by token up to its end. -/
theorem root_takes (start : ParseState) (h : Terminated (start.current :: start.rest)) :
    ∃ tree s taken, EStateM.run (root settings) start = .ok tree s ∧ s.current.kind = .eof ∧
      Takes settings (root settings) start taken ∧ start.supply = taken ++ [s.current] ∧
      s.errors.size ≤ start.errors.size + taken.length := by
  have hakin (n : Nat) : Akin settings settings True n n .nothing Node.Alike (root settings)
      (root settings) := root_akin rfl (Nat.le_refl _)
  obtain ⟨tree, s, hrun, heof, hs, hle⟩ := root_ends settings h
  obtain ⟨taken, htaken⟩ := (hakin start.left).consumes h (Nat.le_refl _) trivial
  rw [stateAfter_ok hrun] at htaken
  -- Nothing is left behind the end.
  have hsupply : start.supply = taken ++ [s.current] := by
    rw [htaken.supply, ParseState.supply, hs.eq_nil heof]
    rfl
  refine ⟨tree, s, taken, hrun, heof, htaken.takes, hsupply, ?_⟩
  have hlength : start.left + 1 = taken.length + 1 := by
    rw [← start.length_supply, hsupply, List.length_append, List.length_singleton]
  rw [ParseState.allowance, ParseState.allowance] at hle
  omega

end Root

end Parse

/-! ## Programs -/

namespace Program

open Parse

/-- **A parse takes every token of its source once.** For any source, however malformed, a parse
comes to a root, with the end as its current token, outside of all productions and rules. The
tokens that it took on the way are the significant tokens of the source, in their order, up to the
end. Its errors are those of the scan and those that it noted itself, which are no more than the
tokens that it took. -/
theorem parse_takes (scan : ScanSettings) (maxDepth : Nat) (source : String) (next : NodeId) :
    ∃ tree s taken,
      EStateM.run (root ⟨scan.golf, maxDepth⟩) (.ofTokens (tokenize scan source).1 next) =
          .ok tree s ∧
        (parse scan maxDepth source next).1 = ⟨tree, (tokenize scan source).2 ++ s.errors.toList⟩ ∧
        s.current.kind = .eof ∧ s.depth = 0 ∧ s.nesting = 0 ∧
        Takes ⟨scan.golf, maxDepth⟩ (root ⟨scan.golf, maxDepth⟩)
          (.ofTokens (tokenize scan source).1 next) taken ∧
        significant (tokenize scan source).1 = taken ++ [s.current] ∧
        s.errors.size ≤ taken.length := by
  obtain ⟨t, rest, hnext, hfront, hsignificant⟩ := (terminated_tokenize scan source).exists_next
  have hstart := ParseState.ofTokens_eq hnext next
  obtain ⟨hdepth, hnesting, herrors⟩ := ParseState.start_ofTokens (tokenize scan source).1 next
  obtain ⟨tree, s, taken, hrun, heof, htakes, hsupply, hsize⟩ :=
    root_takes ⟨scan.golf, maxDepth⟩ (.ofTokens (tokenize scan source).1 next)
      (by rw [hstart]; exact hfront)
  -- Productions and rules are left behind them.
  obtain ⟨-, hdepth', hnesting'⟩ :=
    fitsRoot_of_run (terminated_ofTokens scan source next) hnesting hrun
  refine ⟨tree, s, taken, hrun, by rw [parse_eq hrun], heof, hdepth'.trans hdepth,
    hnesting'.trans hnesting, htakes, ?_, by omega⟩
  rw [hsignificant, ← hsupply, hstart]
  rfl

end Program

end Rulebook
