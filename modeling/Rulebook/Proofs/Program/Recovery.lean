import Rulebook.Proofs.Program.Agreement
import Rulebook.Proofs.Program.Together

/-!
# Recovery in lockstep

After an error two parses that are abreast pass over the same tokens, so the rules and statements
of one are those of the other, up to the seam. If a rule is under way there, then the parse that
ends reports it. Where all braces are closed this cannot be: as many braces as rules are open.

## Main definitions

* `Seam.Reached`: the states at the seam, or behind a semicolon that stands there
* `Seam.Rows`: how rows of items end on two sides

## Main results

* `Seam.recover_together`: the same tokens are passed over
* `Seam.turn_together`: each round takes a token
* `Seam.items_together`, `Seam.item_together`: rules and statements are read in lockstep
-/

namespace Rulebook

namespace Seam

open Parse

variable {m : Seam} {j k n l : Nat} {settings : ParseSettings}

/-! ## Passing over tokens -/

section Recovery

theorem report_together {R : ParseState → ParseState → Prop} {e e' : Error}
    (hR : ∀ s s' : ParseState, R s s' →
      R { s with errors := s.errors.push e } { s' with errors := s'.errors.push e' }) :
    m.Together j R R (report e) (report e') fun _ _ => True :=
  fun s s' hs => .ok (hR s s' hs) trivial

theorem Abreast.report {s s' : ParseState} (hs : m.Abreast k n s s') (e e' : Error) :
    m.Abreast k n { s with errors := s.errors.push e } { s' with errors := s'.errors.push e' } := by
  refine ⟨hs.depth, hs.nesting, ?_, hs.place, hs.braces, hs.length⟩
  simp only [Array.size_push, hs.errors]
  omega

/-- Two parses are abreast, or the second one has passed over the semicolon in whose place the first
one ended. -/
def Reached (m : Seam) (k n : Nat) (s s' : ParseState) : Prop :=
  m.Abreast k n s s' ∨ s.current.kind = .eof ∧ m.stop.kind = .semicolon ∧
    ∃ u', m.Abreast k n s u' ∧ s' = u'.advance

theorem Reached.mono {s s' : ParseState} (h : m.Reached k l s s') (hl : l ≤ n) :
    m.Reached k n s s' := by
  rcases h with h | ⟨heof, hstop, u', h, rfl⟩
  · exact .inl (h.mono (Nat.le_refl k) hl)
  · exact .inr ⟨heof, hstop, u', h.mono (Nat.le_refl k) hl, rfl⟩

/-- The state at the seam, or in front of it. -/
theorem Reached.exists_abreast {s s' : ParseState} (h : m.Reached k n s s') :
    ∃ u', m.Abreast k n s u' ∧ (s' = u' ∨ m.stop.kind = .semicolon ∧ s' = u'.advance) := by
  rcases h with h | ⟨-, hstop, u', h, rfl⟩
  · exact ⟨s', h, .inl rfl⟩
  · exact ⟨u', h, .inr ⟨hstop, rfl⟩⟩

/-- Tokens are passed over together. Outside of rules no brace has to be kept. -/
theorem synchronize_together {insideRule : Bool} (hk : insideRule = false → k = 0)
    (fuel fuel' : Nat) (hfuel : n < fuel) (hfuel' : n < fuel') :
    m.Together k (m.Abreast k n) (m.Reached k n) (synchronize insideRule fuel)
      (synchronize insideRule fuel') fun _ _ => True := by
  induction fuel generalizing n fuel' with
  | zero => exact absurd hfuel (Nat.not_lt_zero n)
  | succ fuel ih =>
    obtain ⟨fuel', rfl⟩ := Nat.exists_eq_succ_of_ne_zero (Nat.ne_zero_of_lt hfuel')
    have hreturn : m.Together k (m.Abreast k n) (m.Reached k n) (pure ()) (pure ())
        fun _ _ => True := fun _ _ hs => .ok (.inl hs) trivial
    refine current_together_stop (fun t t' ht => ?_) fun t ht => ?_
    · have htake (h : k ≤ countBrace k t.kind) : m.Together k (m.At k n t t') (m.Reached k n)
          (advance >>= fun _ => pure ()) (advance >>= fun _ => pure ()) fun _ _ => True :=
        (advance_together ht h).bind fun _ _ _ => hreturn.shorten
      rw [ht.kind]
      cases hkind : t.kind with
      | eof | kwRule | kwIf | kwWhen => exact hreturn.pre fun _ _ hs => hs.1
      | semicolon | kwEnd => exact htake (le_countBrace (by rw [hkind]; nofun) k)
      | rbrace =>
        cases insideRule with
        | true => exact hreturn.pre fun _ _ hs => hs.1
        | false =>
          -- Outside of rules no brace has to stay open.
          have hzero := hk rfl
          exact htake (hzero ▸ Nat.zero_le _)
      | _ =>
        intro s s' hs
        have hpos := hs.pos ht
        refine Together.bind (take_together ht (by rw [hkind]; nofun)) (fun _ _ _ => ?_) s s' hs
        exact (ih fuel' (by omega) (by omega)).post (fun _ _ hs => hs.mono (Nat.sub_le n 1))
          fun _ _ h => h
    · rw [ht]
      rcases m.isStop with hstop | hstop | hstop
      · rw [hstop]
        exact hreturn.pre fun _ _ hs => hs.1
      · rw [hstop]
        exact hreturn.pre fun _ _ hs => hs.1
      -- The second parse passes over a semicolon at the seam.
      · rw [hstop]
        intro s s' hs
        exact .ok (.inr ⟨hs.2, hstop, s', hs.1, rfl⟩) trivial

theorem run_synchronize_eof (insideRule : Bool) (fuel : Nat) {s : ParseState}
    (h : s.current.kind = .eof) : EStateM.run (synchronize insideRule fuel) s = .ok () s := by
  cases fuel with
  | zero => rfl
  | succ fuel =>
    have hcurrent : EStateM.run current s = .ok s.current s := rfl
    rw [synchronize, EStateM.run_bind, hcurrent]
    dsimp only
    rw [h]
    rfl

/-- At the end of the source no token is passed over. -/
theorem run_recover_eof (e : Error) (mark : Nat) (insideRule : Bool) {s : ParseState}
    (h : s.current.kind = .eof) : EStateM.run (recover e mark insideRule) s =
      .ok () { s with errors := s.errors.push e } := by
  have hpass : (s.current.span.start == mark && s.current.kind != .eof &&
      s.current.kind != .rbrace) = false := by simp [h]
  show EStateM.run (if _ then _ else _) _ = _
  rw [hpass]
  exact run_synchronize_eof insideRule _ h

variable {insideRule : Bool} (hk : insideRule = false → k = 0)
include hk

/-- Outside of rules a closing brace is passed over. -/
theorem synchronize_together_at {t t' : Token} (ht : m.Paired t t') (hkind : t.kind = .rbrace)
    (hinside : insideRule = false) {fuel fuel' : Nat} :
    m.Together k (m.At k n t t') (m.Reached k (n - 1)) (synchronize insideRule (fuel + 1))
      (synchronize insideRule (fuel' + 1)) fun _ _ => True := by
  have hzero : k ≤ countBrace k t.kind := by
    rw [hk hinside]
    exact Nat.zero_le _
  refine current_together_at ?_
  rw [ht.kind, hkind, hinside]
  exact (advance_together ht hzero).bind fun _ _ _ _ _ hs => .ok (.inl hs) trivial

/-- A production failed behind the offset `mark` that it began at. -/
theorem recover_together {e e' : Error} {mark mark' : Nat} (hmark : mark' = mark + m.shift)
    (hbefore : m.stop.kind ≠ .eof → mark' < m.stop.span.start) :
    m.Together k (m.Abreast k n) (m.Reached k n) (recover e mark insideRule)
      (recover e' mark' insideRule) fun _ _ => True := by
  have hpass {l : Nat} (hl : l ≤ n) : m.Together k (m.Abreast k l) (m.Reached k n)
      (MonadState.get >>= fun s => synchronize insideRule s.remaining)
      (MonadState.get >>= fun s => synchronize insideRule s.remaining) fun _ _ => True := by
    refine remaining_together fun s s' l' hl' hs hs' => ?_
    exact (synchronize_together hk _ _ hs hs').post (fun _ _ hs => hs.mono (hl'.trans hl))
      fun _ _ h => h
  refine (report_together fun _ _ hs => hs.report e e').bind fun _ _ _ => ?_
  refine current_together (fun t t' ht => ?_) fun t ht => ?_
  -- Whether the production is still at its first token is the same question on both sides.
  · have hsame : (t'.span.start == mark' && t'.kind != .eof && t'.kind != .rbrace) =
        (t.span.start == mark && t.kind != .eof && t.kind != .rbrace) := by
      have hstart : (t'.span.start == mark') = (t.span.start == mark) := by
        rw [ht.start, hmark]
        exact Bool.eq_iff_iff.2 (by simp)
      rw [hstart, ht.kind]
    rw [hsame]
    cases hc : (t.span.start == mark && t.kind != .eof && t.kind != .rbrace) with
    | true =>
      have hbrace : t.kind ≠ .rbrace := bne_iff_ne.1 (Bool.and_eq_true_iff.1 hc).2
      exact (take_together ht hbrace).bind fun _ _ _ =>
        hpass (Nat.sub_le n 1)
    | false => exact (hpass (Nat.le_refl n)).pre fun _ _ hs => hs.1
  -- At the seam neither side takes the token, for the mark is in front of it.
  · have hleft : (t.span.start == mark && t.kind != .eof && t.kind != .rbrace) = false := by
      rw [ht]
      simp
    have hright : (m.stop.span.start == mark' && m.stop.kind != .eof && m.stop.kind != .rbrace) =
        false := by
      by_cases hstop : m.stop.kind = .eof
      · rw [hstop]
        simp
      · rw [beq_eq_false_iff_ne.2 (hbefore hstop).ne']
        rfl
    rw [hleft, hright]
    exact hpass (Nat.le_refl n)

/-- A production failed at its first token, which is passed over. -/
theorem recover_together_at {e e' : Error} {t t' : Token} (ht : m.Paired t t')
    (hbrace : t.kind = .rbrace → insideRule = false) :
    m.Together k (m.At k n t t') (m.Reached k (n - 1)) (recover e t.span.start insideRule)
      (recover e' t'.span.start insideRule) fun _ _ => True := by
  have hreport (s s' : ParseState) (hs : m.At k n t t' s s') :
      m.At k n t t' { s with errors := s.errors.push e } { s' with errors := s'.errors.push e' } :=
    ⟨hs.1.report e e', hs.2⟩
  refine (report_together hreport).bind fun _ _ _ => current_together_at ?_
  rw [ht.kind]
  by_cases hkind : t.kind = .rbrace
  · -- The brace is not passed over as the first token, but in search of a place to go on.
    have hstart (u : Token) :
        (u.span.start == u.span.start && t.kind != .eof && t.kind != .rbrace) = false := by
      simp [hkind]
    rw [hstart, hstart]
    refine Together.get fun s s' hs => (synchronize_together_at hk ht hkind (hbrace hkind)).pre ?_
    rintro _ _ ⟨rfl, rfl⟩
    exact hs
  · have hstart (u : Token) :
        (u.span.start == u.span.start && t.kind != .eof && t.kind != .rbrace) = true := by
      simp [ht.proper.ne_eof, hkind]
    rw [hstart, hstart]
    refine (take_together ht hkind).bind fun _ _ _ => ?_
    refine remaining_together fun s s' l hl hs hs' => ?_
    exact (synchronize_together hk _ _ hs hs').post (fun _ _ hs => hs.mono hl) fun _ _ h => h

end Recovery

/-! ## Items -/

section Items

variable {item : Parse Node} {insideRule : Bool}

/-- Items are read in lockstep, wherever they begin. -/
def ItemsTogether (m : Seam) (k : Nat) (item : Parse Node) : Prop :=
  ∀ n t t', m.Paired t t' →
    m.Together k (m.At k n t t') (m.Abreast k (n - 1)) item item Node.Alike

/-- An item that fails has taken tokens, or none. -/
def GoesOnward (item : Parse Node) : Prop :=
  ∀ s : ParseState, Terminated (s.current :: s.rest) → ∀ e t, EStateM.run item s = .error e t →
    s.Moved t

/-- How rows of items end on two sides: both of them, at the closing brace of a rule or at the end
of the source; or the first one at the seam, where the second one goes on with fuel for more than
`c` rounds; or the first one at its end, where it reported that a rule is open. What stands in front
of the row on the second side stays there. -/
inductive Rows (m : Seam) (k n c : Nat) (item : Parse Node) (insideRule : Bool) (base : List Node) :
    EStateM.Result Error ParseState (List Node) → EStateM.Result Error ParseState (List Node) → Prop
  | ok {t t' : ParseState} {ns ns' : List Node} (hend : insideRule = true ∨ m.stop.kind = .eof)
    (h : m.Abreast k n t t') (hns : List.Forall₂ Node.Alike ns ns') :
    Rows m k n c item insideRule base (.ok ns t) (.ok (base.reverse ++ ns') t')
  | seam {t t' : ParseState} {ns ns' : List Node} {fuel : Nat} (hstop : m.stop.kind ≠ .eof)
    (heof : t.current.kind = .eof) (hns : List.Forall₂ Node.Alike ns ns')
    (h : m.Reached k n t t') (hfuel : c < fuel) :
    Rows m k n c item insideRule base (.ok ns t)
      (EStateM.run (items item insideRule fuel (ns'.reverse ++ base)) t')
  | hidden {t : ParseState} {ns : List Node}
    {r : EStateM.Result Error ParseState (List Node)} (h : m.Hides)
    (heof : t.current.kind = .eof) (he : ∃ e ∈ t.errors, e.IsUnclosedRule) :
    Rows m k n c item insideRule base (.ok ns t) r

theorem Rows.mono {c : Nat} {base : List Node}
    {r r' : EStateM.Result Error ParseState (List Node)}
    (h : m.Rows k l c item insideRule base r r') (hl : l ≤ n) :
    m.Rows k n c item insideRule base r r' := by
  cases h with
  | ok hend h hns => exact .ok hend (h.mono (Nat.le_refl k) hl) hns
  | seam hstop heof hns h hfuel => exact .seam hstop heof hns (h.mono hl) hfuel
  | hidden h heof he => exact .hidden h heof he

variable (hitem : ItemsTogether m k item) (honward : GoesOnward item)
  (hk : insideRule = false → k = 0)
include hitem honward hk

omit hitem honward in
/-- What follows an item that failed takes a token, if the item has taken none. -/
theorem recover_item_together {t t' : Token} (ht : m.Paired t t')
    (hbrace : t.kind = .rbrace → insideRule = false) {s s' u u' : ParseState}
    (hs : m.At k n t t' s s') (hmoved : s.Moved u) (h : m.Abreast k l u u') (e e' : Error) :
    m.Both k (m.Reached k (n - 1)) (Option.Rel Node.Alike)
      (EStateM.run (recover e t.span.start insideRule >>= fun _ => pure none) u)
      (EStateM.run (recover e' t'.span.start insideRule >>= fun _ => pure none) u') := by
  have hpass (R : ParseState → ParseState → Prop)
      (hrecover : m.Together k R (m.Reached k (n - 1)) (recover e t.span.start insideRule)
        (recover e' t'.span.start insideRule) fun _ _ => True) :
      m.Together k R (m.Reached k (n - 1))
        (recover e t.span.start insideRule >>= fun _ => pure none)
        (recover e' t'.span.start insideRule >>= fun _ => pure none) (Option.Rel Node.Alike) :=
    hrecover.bind fun _ _ _ => .pure .none
  obtain ⟨hs, rfl, rfl⟩ := hs
  rcases hmoved with ⟨hcurrent, hrest⟩ | ⟨-, hlt⟩
  · -- The item failed at its first token, where both parses are.
    have hpaired : m.Paired u.current u'.current :=
      (Edge.Place.supply h.place (hcurrent ▸ ht.proper.ne_eof)).1
    have hu : m.At k n u.current u'.current u u' :=
      ⟨{ h with length := hrest ▸ hs.length }, rfl, rfl⟩
    have hstart : u.current.span.start = s.current.span.start := by rw [hcurrent]
    have hstart' : u'.current.span.start = s'.current.span.start := by
      rw [hpaired.start, ht.start, hstart]
    have hrecover : m.Together k (m.At k n u.current u'.current) (m.Reached k (n - 1))
        (recover e u.current.span.start insideRule)
        (recover e' u'.current.span.start insideRule) fun _ _ => True :=
      recover_together_at hk hpaired (by rwa [hcurrent])
    rw [hstart, hstart'] at hrecover
    exact hpass _ hrecover u u' hu
  · -- The item took tokens before it failed.
    have hlength : u.rest.length ≤ n - 1 := by
      have hle := hs.length
      omega
    exact hpass _ (recover_together hk ht.start ht.before) u u' { h with length := hlength }

/-- A round takes a token: if the item fails at its first one, that is passed over. If a rule goes
on up to the end on one side, where the other side may go on, then this is reported. -/
theorem turn_together {t t' : Token} (ht : m.Paired t t')
    (hbrace : t.kind = .rbrace → insideRule = false) {s s' : ParseState}
    (hs : m.At k n t t' s s') :
    m.Both k (m.Reached k (n - 1)) (Option.Rel Node.Alike)
        (EStateM.run (turn item insideRule t.span.start) s)
        (EStateM.run (turn item insideRule t'.span.start) s') ∨
      m.Hides ∧ ∃ u, EStateM.run (turn item insideRule t.span.start) s = .ok none u ∧
        u.current.kind = .eof ∧ ∃ e ∈ u.errors, e.IsUnclosedRule := by
  by_cases hsemicolon : t.kind = .semicolon
  · have hk : k ≤ countBrace k t.kind := le_countBrace (by rw [hsemicolon]; nofun) k
    rw [run_turn_semicolon insideRule _ (by rw [hs.2.1, hsemicolon]),
      run_turn_semicolon insideRule _ (by rw [hs.2.2, ht.kind, hsemicolon])]
    exact .inl (.ok (.inl (hs.advance ht hk)) .none)
  rw [run_turn insideRule _ (by rwa [hs.2.1]), run_turn insideRule _ (by rwa [hs.2.2, ht.kind])]
  have h := hitem n t t' ht s s' hs
  generalize hr : EStateM.run item s = r, EStateM.run item s' = r' at h
  cases h with
  | ok h hq => exact .inl (.ok (.inl h) (.some hq))
  | @hidden u e r h heof he =>
    -- The error of the open rule is noted, at the end of the source.
    refine .inr ⟨h, { u with errors := u.errors.push e }, ?_, heof, e, Array.mem_push_self, he⟩
    show EStateM.run (recover e t.span.start insideRule >>= fun _ => pure none) u = _
    rw [EStateM.run_bind, run_recover_eof e t.span.start insideRule heof]
    rfl
  | @error _ u u' e e' h =>
    have hmoved := honward s hs.1.place.terminated e u hr
    exact .inl (recover_item_together hk ht hbrace hs hmoved h e e')

/-- Rows of items are read in lockstep up to the seam. What stands in front of the row on one side
stays there. -/
theorem items_together (base : List Node) (c fuel fuel' : Nat) (hfuel : n < fuel)
    (hfuel' : n + c < fuel') {done done' : List Node} (hdone : List.Forall₂ Node.Alike done done')
    {s s' : ParseState} (hs : m.Abreast k n s s') :
    m.Rows k n c item insideRule base (EStateM.run (items item insideRule fuel done) s)
      (EStateM.run (items item insideRule fuel' (done' ++ base)) s') := by
  induction fuel generalizing n fuel' done done' s s' with
  | zero => exact absurd hfuel (Nat.not_lt_zero n)
  | succ fuel ih =>
    obtain ⟨fuel', rfl⟩ := Nat.exists_eq_succ_of_ne_zero (Nat.ne_zero_of_lt hfuel')
    rcases hs.place with ⟨ht, -⟩ | ⟨heof, -, hcurrent', -⟩
    · have hat : m.At k n s.current s'.current s s' := ⟨hs, rfl, rfl⟩
      have hpos := hat.pos ht
      cases hc : s.current.kind == .eof || (insideRule && s.current.kind == .rbrace) with
      | true =>
        -- The rule is closed on both sides.
        rw [run_items_stop fuel done hc, run_items_stop fuel' (done' ++ base) (ht.kind ▸ hc),
          List.reverse_append]
        have hinside : insideRule = true := by
          rw [beq_eq_false_iff_ne.2 ht.proper.ne_eof, Bool.false_or] at hc
          exact (Bool.and_eq_true_iff.1 hc).1
        exact .ok (.inl hinside) hs (List.forall₂_reverse_iff.2 hdone)
      | false =>
        have hbrace : s.current.kind = .rbrace → insideRule = false := by
          intro hkind
          rw [hkind] at hc
          simpa using hc
        have hturn := turn_together hitem honward hk ht hbrace hat
        obtain ⟨new, u, hu⟩ := turn_total item insideRule s.current.span.start s
        obtain ⟨new', u', hu'⟩ := turn_total item insideRule s'.current.span.start s'
        rw [run_items_turn fuel done hc hu, run_items_turn fuel' _ (ht.kind ▸ hc) hu',
          ← List.append_assoc]
        rw [hu, hu'] at hturn
        rcases hturn with hturn | ⟨hhides, v, hv, heof, hreported⟩
        · cases hturn with
          | ok hreached hnew =>
            have hmore : List.Forall₂ Node.Alike (new.toList ++ done) (new'.toList ++ done') := by
              cases hnew with
              | none => exact hdone
              | some h => exact .cons h hdone
            rcases hreached with habreast | ⟨heof, hstop, u'', habreast, rfl⟩
            · exact (ih fuel' (by omega) (by omega) hmore habreast).mono (Nat.sub_le n 1)
            -- The second parse is behind the semicolon at the seam.
            · rw [run_items_eof insideRule fuel _ heof,
                ← List.reverse_reverse (new'.toList ++ done')]
              exact .seam (by rw [hstop]; nofun) heof
                (List.forall₂_reverse_iff.2 hmore)
                (.inr ⟨heof, hstop, u'', habreast.mono (Nat.le_refl k) (Nat.sub_le n 1), rfl⟩)
                (by omega)
        · cases hv
          rw [run_items_eof insideRule fuel _ heof]
          exact .hidden hhides heof hreported
    -- Both rows end at the end of the source, or only the first one does.
    · rw [run_items_eof insideRule (fuel + 1) done heof]
      by_cases hstop : m.stop.kind = .eof
      · rw [run_items_eof insideRule (fuel' + 1) _ (hcurrent' ▸ hstop), List.reverse_append]
        exact .ok (.inr hstop) hs (List.forall₂_reverse_iff.2 hdone)
      · rw [← List.reverse_reverse done']
        exact .seam hstop heof (List.forall₂_reverse_iff.2 hdone) (.inl hs) (by omega)

omit hitem honward hk in
/-- Items in the body of a rule, in which a brace is open, are read in lockstep, or they go on up to
the end on one side. -/
theorem body_together (hitem : ItemsTogether m (k + 1) item) (honward : GoesOnward item)
    {s s' : ParseState} (hs : m.Abreast (k + 1) n s s') :
    m.Both (k + 1) (m.Abreast (k + 1) n) (List.Forall₂ Node.Alike)
        (EStateM.run (items item true s.remaining []) s)
        (EStateM.run (items item true s'.remaining []) s') ∨
      m.Hides ∧ ∃ ns t, EStateM.run (items item true s.remaining []) s = .ok ns t ∧
        t.current.kind = .eof := by
  have hinside : true = false → k + 1 = 0 := nofun
  have hle : s.rest.length ≤ s'.rest.length := hs.length_le
  have hrows := items_together hitem honward hinside [] 0 s.remaining s'.remaining
    (Nat.lt_succ_self _) (Nat.lt_succ_of_le hle) .nil { hs with length := Nat.le_refl _ }
  rw [List.append_nil] at hrows
  generalize hleft : EStateM.run (items item true s.remaining []) s = r at hrows
  generalize EStateM.run (items item true s'.remaining []) s' = r' at hrows
  cases hrows with
  | ok _ h hns => exact .inl (.ok (h.mono (Nat.le_refl _) hs.length) hns)
  | @seam t t' ns ns' fuel hstop heof hns h hfuel =>
    -- The brace of the body would have to be closed.
    have hopen : ¬m.closed := by
      intro hclosed
      obtain ⟨u', h, -⟩ := h.exists_abreast
      exact Nat.succ_ne_zero k (h.eq_zero heof hclosed)
    exact .inr ⟨⟨hstop, hopen⟩, ns, t, rfl, heof⟩
  | @hidden t ns r' h heof he => exact .inr ⟨h, ns, t, rfl, heof⟩

omit hitem honward hk in
/-- At the end of the source a rule is not closed. -/
theorem run_expect_eof {s : ParseState} (h : s.current.kind = .eof) :
    EStateM.run (expect .rbrace "'\x7d' after rule body") s =
      .error (.malformed unclosedRule s.current.span s.current.line s.current.column) s := by
  have hrun : EStateM.run (expect .rbrace "'\x7d' after rule body") s =
      EStateM.run (if s.current.kind == .rbrace then advance
        else failExpecting "'\x7d' after rule body") s := rfl
  have hfail : EStateM.run (failExpecting "'\x7d' after rule body" : Parse Token) s =
      EStateM.run (failHere ("expected " ++ "'\x7d' after rule body" ++ ", found '" ++
        s.current.kind.text ++ "'")) s := rfl
  rw [hrun, h]
  show EStateM.run (failExpecting "'\x7d' after rule body" : Parse Token) s = _
  rw [hfail, h]
  rfl

omit hitem honward hk in
/-- In the body of a rule a brace is open, which is closed before the next rule may begin. -/
theorem rule_together (hitem : ItemsTogether m (k + 1) item) (honward : GoesOnward item)
    {t t' : Token} (ht : m.Paired t t') (hrule : t.kind = .kwRule) :
    m.Together k (m.At k n t t') (m.Abreast k (n - 1)) (rule item) (rule item) Node.Alike := by
  refine (advance_together ht (le_countBrace (by simp [hrule]) k)).bind fun start start' _ => ?_
  refine (Together.of_rel (expectName_rel (C := m.together k {}))).bind
    fun name name' hname => ?_
  obtain ⟨rfl, -⟩ := hname
  -- The brace stays open up to the end of the body.
  refine (expectBrace_together .lbrace rfl (Nat.le_refl k) (Nat.le_refl (k + 1))).bind
    fun brace brace' _ => ?_
  intro s s' hs
  rcases body_together hitem honward (hs.mapNesting (· + 1)) with hbody | ⟨hhides, ns, u, hu, heof⟩
  · refine Both.bind (Both.inRule hs (hbody.weaken (Nat.le_succ k)))
      fun statements statements' hs => ?_
    refine (expectBrace_together .rbrace rfl (Nat.le_succ k) (Nat.le_refl k)).bind
      fun close close' _ => ?_
    refine Together.bind (P := Node.Alike) (Together.of_rel ((m.together k {}).make
      fun id id' _ => .block hs id id' _ _ _ _)) fun body body' hbody => ?_
    refine Together.bind (P := Node.Alike) (Together.of_rel ((m.together k {}).make
      fun id id' _ => .rule hbody id id' _ _ _ _)) fun n n' hn => ?_
    exact (checkHeight_together (Nat.le_refl k) hn.depth_eq).bind fun _ _ _ => .pure hn
  -- The body goes on up to the end on one side, where the rule fails.
  · have hbody : EStateM.run (inRule (do items item true (← get).remaining [])) s =
        .ok ns { u with nesting := u.nesting - 1 } := run_inRule_ok hu
    rw [EStateM.run_bind, hbody]
    dsimp only
    rw [EStateM.run_bind, run_expect_eof (s := { u with nesting := u.nesting - 1 }) heof]
    exact .hidden hhides heof rfl

omit hitem honward hk in
theorem goesOnward_item (settings : ParseSettings) (levels : Nat) :
    GoesOnward (Parse.item settings levels) :=
  fun _ hs _ _ hrun => (leads_of_run_item hs hrun).moved

omit hitem honward hk in
/-- Rules and statements are read in lockstep, and take at least one token. -/
theorem item_together (settings : ParseSettings) (levels : Nat) :
    ItemsTogether m k (Parse.item settings levels) := by
  have hstatement (levels n : Nat) (t t' : Token) (k : Nat) :
      m.Together k (m.At k n t t') (m.Abreast k (n - 1))
        (statement settings (expr settings levels)) (statement settings (expr settings levels))
        Node.Alike :=
    (statement_together levels).pre fun _ _ hs => hs.1
  induction levels generalizing k with
  | zero => exact fun n t t' _ => hstatement 0 n t t' k
  | succ levels ih =>
    intro n t t' ht
    show m.Together k (m.At k n t t') (m.Abreast k (n - 1))
      (current >>= fun t =>
        if t.kind == .kwRule then nested settings (rule (Parse.item settings levels))
        else statement settings (expr settings (levels + 1)))
      (current >>= fun t =>
        if t.kind == .kwRule then nested settings (rule (Parse.item settings levels))
        else statement settings (expr settings (levels + 1))) Node.Alike
    refine current_together_at ?_
    rw [ht.kind]
    cases hrule : t.kind == .kwRule with
    | true =>
      exact nested_together (rule_together ih (goesOnward_item settings levels) ht
        (beq_iff_eq.1 hrule))
    | false => exact hstatement (levels + 1) n t t' k

end Items

end Seam

end Rulebook
