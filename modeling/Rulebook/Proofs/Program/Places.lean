import Rulebook.Proofs.Program.Consumption
import Rulebook.Proofs.Token.Stream
import Rulebook.Proofs.Token.Tiling

/-!
# Where errors stand

The errors of a source stand at its tokens, in the order of these. For single tokens that is how
they are scanned. A production fails at the current token, and its error is noted before another
token is taken, however far outside of the production that happens.

## Main definitions

* `Span.StandsIn`: a stretch of a source, and the line and the column where it begins
* `ParseState.Orderly`: errors stand at tokens, in order, and none behind the current one
* `Parse.EndsOrderly`: a computation ended so, and failed at its current token if it did

## Main results

* `Span.StandsIn.diagnostic`: the range of a diagnostic is the stretch of the error
* `Parse.Akin.endsOrderly`: what the productions are made of keeps errors in order
* `Program.parse_places`: the errors of a parse stand where they say
-/

namespace Rulebook

/-! ## Stretches of a source -/

section Stretches

variable {source : String}

/-- A stretch of a source, which begins and ends between characters. The line and the column where
it begins are counted from one: line ends in front of it, and characters behind the last of
these. -/
structure Span.StandsIn (source : String) (span : Span) (line column : Nat) : Prop where
  start_le_stop : span.start ≤ span.stop
  stop_le : span.stop ≤ source.utf8ByteSize
  start : String.Pos.Raw.IsValid source ⟨span.start⟩
  stop : String.Pos.Raw.IsValid source ⟨span.stop⟩
  line : line = 1 + (String.Pos.Raw.extract source 0 ⟨span.start⟩).toList.count '\n'
  column : column = 1 +
    ((String.Pos.Raw.extract source 0 ⟨span.start⟩).toList.reverse.takeWhile (· ≠ '\n')).length

/-- The range of a diagnostic is the stretch of its error, which lies in the source. -/
theorem Span.StandsIn.diagnostic {span : Span} {line column : Nat}
    (h : span.StandsIn source line column) (detail : String) :
    Diagnostic.ofError? source.utf8ByteSize (.malformed detail span line column) =
      some ⟨"syntax error at " ++ toString line ++ ":" ++ toString column, detail, span.start,
        span.stop - span.start⟩ := by
  have hstart : min span.start source.utf8ByteSize = span.start :=
    Nat.min_eq_left (h.start_le_stop.trans h.stop_le)
  have hstop : min (max span.stop span.start) source.utf8ByteSize = span.stop := by
    rw [Nat.max_eq_left h.start_le_stop, Nat.min_eq_left h.stop_le]
  simp only [Diagnostic.ofError?, hstart, hstop]

theorem Token.StandsIn.span {t : Token} (h : t.StandsIn source)
    (hle : t.span.start ≤ t.span.stop) : t.span.StandsIn source t.line t.column :=
  ⟨hle, h.stop.le_rawEndPos, h.start, h.stop, h.line, h.column⟩

end Stretches

/-! ## Tokens and their errors -/

namespace Cursor

section Order

variable {golf : Bool} {c : Cursor} {t : Token}

theorem start_le_stop_of_mem (h : t ∈ c.scanAll golf) : t.span.start ≤ t.span.stop := by
  fun_induction scanAll golf c with
  | case1 c _ =>
    obtain rfl := List.mem_singleton.1 h
    exact Place.offset_le_afterAll _ _
  | case2 c _ ih =>
    rcases List.mem_cons.1 h with rfl | h
    · exact Place.offset_le_afterAll _ _
    · exact ih h

theorem offset_le_start_of_mem (h : t ∈ c.scanAll golf) : c.place.offset ≤ t.span.start := by
  fun_induction scanAll golf c with
  | case1 c _ =>
    obtain rfl := List.mem_singleton.1 h
    exact Nat.le_refl _
  | case2 c _ ih =>
    rcases List.mem_cons.1 h with rfl | h
    · exact Nat.le_refl _
    · exact (Place.offset_le_afterAll _ _).trans (ih h)

theorem pairwise_scanAll (golf : Bool) (c : Cursor) :
    (c.scanAll golf).Pairwise (·.span.start ≤ ·.span.start) := by
  fun_induction scanAll golf c with
  | case1 c _ => exact List.pairwise_singleton _ _
  | case2 c _ ih =>
    refine List.pairwise_cons.2 ⟨fun t ht => ?_, ih⟩
    exact (Place.offset_le_afterAll _ _).trans (offset_le_start_of_mem ht)

end Order

end Cursor

section Tokens

variable (scan : ScanSettings) (source : String)

/-- The tokens of a source stand in it, one behind the other, the end behind its last byte. -/
theorem tokenize_places :
    (∀ t ∈ (tokenize scan source).1, t.span.StandsIn source t.line t.column ∧
        (t.kind = .eof → t.span = ⟨source.utf8ByteSize, source.utf8ByteSize⟩)) ∧
      (tokenize scan source).1.Pairwise (·.span.start ≤ ·.span.start) := by
  have hstart := Cursor.reached_start source
  rw [tokenize_eq]
  refine ⟨fun t ht => ?_, (Cursor.pairwise_scanAll _ _).filter _⟩
  -- Places are those among all tokens of the source, trivia included.
  have hmem := Cursor.mem_of_mem_kept ht
  refine ⟨(hstart.standsIn_of_mem hmem).span (Cursor.start_le_stop_of_mem hmem), fun heof => ?_⟩
  obtain ⟨front, last, hall, -, hspan, hfront⟩ := hstart.exists_concat scan.golf
  rw [hall] at hmem
  rcases List.mem_append.1 hmem with hmem | hmem
  · exact absurd heof (hfront t hmem).1
  · exact List.mem_singleton.1 hmem ▸ hspan

theorem Token.placedAt_of_error? {t : Token} {e : Error} (h : t.error? = some e) :
    e.PlacedAt t := by
  unfold Token.error? at h
  split at h
  · cases h
    exact ⟨rfl, rfl, rfl⟩
  · cases h

theorem Error.PlacedAt.eq_span {t : Token} {e : Error} {span : Span} (h : e.PlacedAt t)
    (hspan : e.span? = some span) : span = t.span := by
  cases e with
  | malformed detail span' line column =>
    cases hspan
    exact h.1
  | _ => cases hspan

/-- The errors of a scan stand at its tokens, in order. -/
theorem errors_places :
    (∀ e ∈ (tokenize scan source).2, ∃ t ∈ (tokenize scan source).1, e.PlacedAt t) ∧
      ((tokenize scan source).2.filterMap Error.span?).Pairwise (·.start ≤ ·.start) := by
  rw [errors_tokenize]
  constructor
  · intro e he
    obtain ⟨t, ht, herror⟩ := List.mem_filterMap.1 he
    exact ⟨t, ht, Token.placedAt_of_error? herror⟩
  · rw [List.filterMap_filterMap]
    refine (tokenize_places scan source).2.filterMap _ fun t u hle span hspan span' hspan' => ?_
    obtain ⟨e, he, hspan⟩ := Option.bind_eq_some_iff.1 hspan
    obtain ⟨e', he', hspan'⟩ := Option.bind_eq_some_iff.1 hspan'
    rwa [(Token.placedAt_of_error? he).eq_span hspan, (Token.placedAt_of_error? he').eq_span hspan']

end Tokens

/-! ## States -/

namespace ParseState

section Orderly

variable {tokens : List Token} {s : ParseState}

/-- The errors so far stand at tokens, in the order of these, and none behind the current one. -/
structure Orderly (tokens : List Token) (s : ParseState) : Prop where
  supply : s.supply <:+ tokens
  placed : ∀ e ∈ s.errors.toList, ∃ t ∈ tokens, e.PlacedAt t
  sorted : (s.errors.toList.filterMap Error.span? ++ s.supply.map Token.span).Pairwise
    (·.start ≤ ·.start)

theorem Orderly.advance (h : s.Orderly tokens) (hs : Terminated (s.current :: s.rest))
    (hne : s.current.kind ≠ .eof) : s.advance.Orderly tokens := by
  have hsupply := supply_advance hs hne
  have hsuffix : s.advance.supply <:+ s.supply := hsupply ▸ List.suffix_cons _ _
  refine ⟨hsuffix.trans h.supply, by rw [errors_advance]; exact h.placed, ?_⟩
  rw [errors_advance]
  exact h.sorted.sublist ((hsuffix.sublist.map Token.span).append_left _)

/-- An error is noted that stands at the current token. -/
theorem Orderly.report (h : s.Orderly tokens) {e : Error} (he : e.PlacedAt s.current) :
    Orderly tokens { s with errors := s.errors.push e } := by
  refine ⟨h.supply, ?_, ?_⟩
  · rw [Array.toList_push, List.forall_mem_append, List.forall_mem_singleton]
    exact ⟨h.placed, s.current, h.supply.mem (List.mem_cons_self ..), he⟩
  · rw [Array.toList_push, List.filterMap_append, List.append_assoc]
    cases hspan : e.span? with
    | none =>
      rw [List.filterMap_cons_none hspan]
      exact h.sorted
    | some span =>
      obtain rfl := he.eq_span hspan
      rw [List.filterMap_cons_some hspan]
      obtain ⟨hspans, hsupply, hbehind⟩ := List.pairwise_append.1 h.sorted
      -- The current token comes first among those that are left.
      have hfirst : ∀ b ∈ s.supply.map Token.span, s.current.span.start ≤ b.start :=
        List.forall_mem_cons.2 ⟨Nat.le_refl _, (List.pairwise_cons.1 hsupply).1⟩
      refine List.pairwise_append.2 ⟨hspans, List.pairwise_cons.2 ⟨hfirst, hsupply⟩, fun a ha => ?_⟩
      exact List.forall_mem_cons.2 ⟨hbehind a ha _ (List.mem_cons_self ..), hbehind a ha⟩

end Orderly

end ParseState

/-! ## Computations -/

namespace Parse

open ParseState (Level Orderly)

section Orderly

variable {tokens : List Token} {α β : Type} {x : Parse α} {s : ParseState}

/-- A computation ended in a state whose errors are in order. If it failed, it did so at the current
token. -/
inductive EndsOrderly (tokens : List Token) : EStateM.Result Error ParseState α → Prop
  | ok {a : α} {t : ParseState} (h : t.Orderly tokens) : EndsOrderly tokens (.ok a t)
  | error {e : Error} {t : ParseState} (h : t.Orderly tokens) (he : e.PlacedAt t.current) :
    EndsOrderly tokens (.error e t)

theorem endsOrderly_nested {settings : ParseSettings} (hs : s.Orderly tokens)
    (h : EndsOrderly tokens (EStateM.run x { s with depth := s.depth + 1 })) :
    EndsOrderly tokens (EStateM.run (nested settings x) s) := by
  simp only [EStateM.run, nested] at h ⊢
  split
  · exact .error hs trivial
  · generalize x _ = r at h ⊢
    cases h with
    | ok h => exact .ok ⟨h.supply, h.placed, h.sorted⟩
    | error h he => exact .error ⟨h.supply, h.placed, h.sorted⟩ he

theorem endsOrderly_inRule
    (h : EndsOrderly tokens (EStateM.run x { s with nesting := s.nesting + 1 })) :
    EndsOrderly tokens (EStateM.run (inRule x) s) := by
  simp only [EStateM.run, inRule] at h ⊢
  generalize x _ = r at h ⊢
  cases h with
  | ok h => exact .ok ⟨h.supply, h.placed, h.sorted⟩
  | error h he => exact .error ⟨h.supply, h.placed, h.sorted⟩ he

/-- What productions are made of keeps errors in order. They fail at the current token, and where a
failure is caught it is noted at once. -/
theorem Akin.endsOrderly {settings : ParseSettings} {loud : Prop} {n l : Nat} {P : Known}
    {Q : α → β → Prop} {y : Parse β} (h : Akin settings settings loud n l P Q x y)
    (hs : Terminated (s.current :: s.rest)) (hn : s.left ≤ n) (hP : P s.current s.nextKind)
    (ho : s.Orderly tokens) : EndsOrderly tokens (EStateM.run x s) := by
  induction h generalizing s with
  | pure _ => exact .ok ho
  | throw e h => exact .error ho (h _ _ hP)
  | refused h => exact absurd h (Nat.lt_irrefl _)
  | weaken _ hn' _ hP' _ ih => exact ih hs (hn.trans hn') (hP' _ _ hP) ho
  | bind hx _ ihx ihf =>
    have horderly := ihx hs hn hP ho
    rw [EStateM.run_bind]
    rcases hx.runs hs hn hP with ⟨a, b, t, hrun, ht, -, hl, hq⟩ | ⟨e, t, hrun, -⟩
    · rw [hrun] at horderly ⊢
      cases horderly with
      | ok ho => exact ihf _ _ hq ht hl trivial ho
    · rw [hrun] at horderly ⊢
      cases horderly with
      | error ho he => exact .error ho he
  | get _ ih => exact ih s s (.refl hs) hn hP hs (Nat.le_refl _) ⟨rfl, rfl⟩ ho
  | @advance _ _ n l P Q f g hP' _ ih =>
    have hne := hP' _ _ hP
    have hleft := ParseState.left_advance hs hne
    show EndsOrderly tokens (EStateM.run (f s.current) s.advance)
    exact ih s.current s.nextKind hP (by omega) ((Level.refl hs).advance hne).terminated (by omega)
      (ParseState.kind_current_advance hs hne) (ho.advance hs hne)
  | make _ => exact .ok ⟨ho.supply, ho.placed, ho.sorted⟩
  | nested _ ih =>
    exact endsOrderly_nested ho
      (@ih { s with depth := s.depth + 1 } hs hn hP ⟨ho.supply, ho.placed, ho.sorted⟩)
  | inRule _ ih =>
    exact endsOrderly_inRule
      (@ih { s with nesting := s.nesting + 1 } hs hn hP ⟨ho.supply, ho.placed, ho.sorted⟩)
  | attempt _ hf _ hx _ _ _ ihx ihok ihstill ihmoved =>
    have horderly := ihx hs hn hP ho
    rw [EStateM.run_bind]
    rcases hx.runs hs hn hP with ⟨a, b, t, hrun, ht, -, hl, hq⟩ | ⟨e, t, hrun, ht, hm⟩
    · rw [hrun] at horderly
      rw [run_attempt_ok hrun]
      cases horderly with
      | ok ho => exact ihok _ _ hq ht hl trivial ho
    · rw [hrun] at horderly
      rw [run_attempt_error hrun]
      cases horderly with
      | error ho he =>
        dsimp only
        rw [hf, EStateM.run_bind, run_report]
        -- What follows the error goes on from where the computation failed.
        rcases known_of_moved hm hn hP with ⟨hleft, hknown⟩ | hleft
        · exact ihstill _ ht hleft hknown (ho.report he)
        · exact ihmoved _ ht hleft trivial (ho.report he)

end Orderly

end Parse

/-! ## Programs -/

namespace Program

section Programs

variable (scan : ScanSettings) (maxDepth : Nat) (source : String) (next : NodeId)

/-- A parse ends with errors that stand at significant tokens, in order. -/
theorem root_orderly : ∃ tree s,
    EStateM.run (Parse.root ⟨scan.golf, maxDepth⟩) (.ofTokens (tokenize scan source).1 next) =
        .ok tree s ∧
      s.Orderly (significant (tokenize scan source).1) := by
  obtain ⟨t, rest, hnext, hfront, hsignificant⟩ := (terminated_tokenize scan source).exists_next
  have hstart := ParseState.ofTokens_eq hnext next
  generalize ParseState.ofTokens (tokenize scan source).1 next = start at hstart ⊢
  have hterminated : Terminated (start.current :: start.rest) := by rwa [hstart]
  -- At the start no error was noted, and all tokens are left.
  have horderly : start.Orderly (significant (tokenize scan source).1) := by
    rw [hstart]
    refine ⟨hsignificant ▸ List.suffix_refl _, List.forall_mem_nil _, ?_⟩
    have hsorted := (tokenize_places scan source).2.filter (·.kind.isSignificant)
    rw [← significant, hsignificant] at hsorted
    exact List.pairwise_map.2 hsorted
  have hakin : Parse.Akin ⟨scan.golf, maxDepth⟩ ⟨scan.golf, maxDepth⟩ True start.left start.left
      .nothing Node.Alike (Parse.root ⟨scan.golf, maxDepth⟩) (Parse.root ⟨scan.golf, maxDepth⟩) :=
    Parse.root_akin rfl (Nat.le_refl _)
  have hends := hakin.endsOrderly hterminated (Nat.le_refl _) trivial horderly
  -- An error cannot be left over, since the root is reached in any case.
  obtain ⟨tree, s, hrun, -⟩ := Parse.root_ends ⟨scan.golf, maxDepth⟩ hterminated
  rw [hrun] at hends
  cases hends with
  | ok h => exact ⟨tree, s, hrun, h⟩

/-- **Errors stand where they say.** Whatever the source, the errors that are found in its tokens
and in its productions name stretches of it that begin and end between characters, each with the
line and the column where it begins. So the range of a diagnostic is the stretch of its error.
Errors of productions stand at significant tokens, or behind the last byte. Errors of either sort
come in the order of the source. -/
theorem parse_places :
    let tokens := (tokenize scan source).1
    let lexical := (tokenize scan source).2
    ∃ tree s, EStateM.run (Parse.root ⟨scan.golf, maxDepth⟩) (.ofTokens tokens next) =
          .ok tree s ∧
        (parse scan maxDepth source next).1 = ⟨tree, lexical ++ s.errors.toList⟩ ∧
        (∀ detail span line column,
          .malformed detail span line column ∈ lexical ++ s.errors.toList →
            span.StandsIn source line column ∧
              Diagnostic.ofError? source.utf8ByteSize (.malformed detail span line column) =
                some ⟨"syntax error at " ++ toString line ++ ":" ++ toString column, detail,
                  span.start, span.stop - span.start⟩) ∧
        (∀ detail span line column, .malformed detail span line column ∈ s.errors.toList →
          (∃ t ∈ significant tokens, t.kind ≠ .eof ∧ t.span = span) ∨
            span = ⟨source.utf8ByteSize, source.utf8ByteSize⟩) ∧
        (lexical.filterMap Error.span?).Pairwise (·.start ≤ ·.start) ∧
        (s.errors.toList.filterMap Error.span?).Pairwise (·.start ≤ ·.start) := by
  intro tokens lexical
  obtain ⟨tree, s, hrun, horderly⟩ := root_orderly scan maxDepth source next
  obtain ⟨htokens, -⟩ := tokenize_places scan source
  obtain ⟨hlexical, hsorted⟩ := errors_places scan source
  have hmem {t : Token} (ht : t ∈ significant tokens) : t ∈ tokens := List.mem_of_mem_filter ht
  have hplaced : ∀ e ∈ lexical ++ s.errors.toList, ∃ t ∈ tokens, e.PlacedAt t := by
    refine List.forall_mem_append.2 ⟨hlexical, fun e he => ?_⟩
    obtain ⟨t, ht, hplaced⟩ := horderly.placed e he
    exact ⟨t, hmem ht, hplaced⟩
  refine ⟨tree, s, hrun, by rw [parse_eq hrun], fun detail span line column he => ?_,
    fun detail span line column he => ?_, hsorted, (List.pairwise_append.1 horderly.sorted).1⟩
  · obtain ⟨t, ht, rfl, rfl, rfl⟩ := hplaced _ he
    have hstands := (htokens t ht).1
    exact ⟨hstands, hstands.diagnostic detail⟩
  · obtain ⟨t, ht, rfl, -⟩ := horderly.placed _ he
    by_cases heof : t.kind = .eof
    · exact .inr ((htokens t (hmem ht)).2 heof)
    · exact .inl ⟨t, ht, heof, rfl⟩

end Programs

end Program

end Rulebook
