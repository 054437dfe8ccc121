import Rulebook.Proofs.Program.Boundary
import Rulebook.Proofs.Program.Excerpt
import Rulebook.Proofs.Token.Spelling

/-!
# The text in front of a parse

A parse of a source is in front of the text that it has not read yet, from the current token on.
Where a production comes to a result, what it has read is a piece at the front of that text.

## Main definitions

* `Lexeme.Opens`: a text begins with a token of a kind, whatever its place
* `ParseState.Faces`: a parse is in front of a text
* `Parse.Goes`: a computation that comes to a result goes from one text to another
* `Program.IsCondition`, `Program.Uncommented`: a source is the text of a condition, without
  comments

## Main results

* `Program.IsCondition.goes`: a condition is read in front of a comma or a closing parenthesis
-/

namespace Rulebook

/-! ## Texts -/

/-- A text begins with a significant token of a kind, and goes on with another text. -/
def Lexeme.Opens (golf : Bool) (cs : List Char) (kind : TokenKind) (rest : List Char) : Prop :=
  kind.isSignificant = true ∧ kind ≠ .eof ∧
    ∃ text, cs = text ++ rest ∧ Lexeme.ofChars golf cs = ⟨kind, text.length⟩

namespace Cursor

/-- The kinds of the tokens of a text do not depend on its place. -/
theorem map_kind_scanAll (golf : Bool) (cs : List Char) (p q : Place) :
    (scanAll golf ⟨p, cs⟩).map Token.kind = (scanAll golf ⟨q, cs⟩).map Token.kind := by
  have hstart (p : Place) :
      (scanAll golf ⟨p, cs⟩).map Token.kind = (scanAll golf ⟨{}, cs⟩).map Token.kind := by
    have hshifted := scanAll_shifted golf cs (p := {}) (q := p) (Nat.zero_add p.offset).symm
    generalize scanAll golf ⟨p, cs⟩ = us, scanAll golf ⟨{}, cs⟩ = ts at hshifted
    induction hshifted with
    | nil => rfl
    | cons ht _ ih => rw [List.map_cons, List.map_cons, ht.kind, ih]
  rw [hstart p, hstart q]

theorem forall_kind_scanAll {golf : Bool} {cs : List Char} {p q : Place} {P : TokenKind → Prop}
    (h : ∀ t ∈ scanAll golf ⟨p, cs⟩, P t.kind) : ∀ t ∈ scanAll golf ⟨q, cs⟩, P t.kind := by
  have hkinds : ∀ kind ∈ (scanAll golf ⟨p, cs⟩).map Token.kind, P kind := List.forall_mem_map.2 h
  rw [map_kind_scanAll golf cs p q] at hkinds
  exact List.forall_mem_map.1 hkinds

theorem terminated_kept (s : ScanSettings) (golf : Bool) (c : Cursor) :
    Terminated (kept s (scanAll golf c)) := by
  obtain ⟨front, last, hall, hlast, hfront⟩ := scanAll_concat golf c
  rw [hall, kept_concat s front hlast]
  exact terminated_of_concat hlast fun t ht => hfront t (mem_of_mem_kept ht)

theorem kept_cons_of_isSignificant (s : ScanSettings) {t : Token} (h : t.kind.isSignificant = true)
    (ts : List Token) : kept s (t :: ts) = t :: kept s ts := by
  rw [kept, List.filter_cons, not_skips_of_isSignificant s h]
  rfl

/-- Tokens that do not matter may be skipped or kept. -/
theorem nextSignificant?_kept_cons (s : ScanSettings) {t : Token}
    (h : t.kind.isSignificant = false) (ts : List Token) :
    nextSignificant? (kept s (t :: ts)) = nextSignificant? (kept s ts) := by
  rw [kept, List.filter_cons]
  split
  · rw [nextSignificant?, h]
    rfl
  · rfl

/-- Blanks at the front of a text. -/
theorem nextSignificant?_blanks (s : ScanSettings) (p : Place) (cs : List Char) :
    nextSignificant? (kept s (scanAll s.golf ⟨p, cs⟩)) =
      nextSignificant? (kept s (scanAll s.golf
        ⟨p.afterAll (cs.takeWhile fun c => c ≠ '\n' && isBlank c),
          cs.dropWhile fun c => c ≠ '\n' && isBlank c⟩)) := by
  cases cs with
  | nil => rfl
  | cons c cs =>
    by_cases hc : (c ≠ '\n' && isBlank c) = true
    · -- The blanks are one token.
      have hlexeme : Lexeme.ofChars s.golf ((c :: cs).takeWhile (fun c => c ≠ '\n' && isBlank c) ++
          (c :: cs).dropWhile fun c => c ≠ '\n' && isBlank c) =
            ⟨.blanks, ((c :: cs).takeWhile fun c => c ≠ '\n' && isBlank c).length⟩ := by
        obtain ⟨hline, hblank⟩ := Bool.and_eq_true_iff.1 hc
        rw [List.takeWhile_append_dropWhile, Lexeme.ofChars, if_neg (by simpa using hline),
          if_pos hblank, Lexeme.blankRun, List.takeWhile_cons, if_pos hc, List.length_cons,
          Nat.add_comm]
      obtain ⟨t, hkind, hscan⟩ := scanAll_lexeme p (by simp) hlexeme
      rw [List.takeWhile_append_dropWhile] at hscan
      rw [hscan, nextSignificant?_kept_cons s (by rw [hkind]; rfl)]
    · rw [List.takeWhile_cons, List.dropWhile_cons, if_neg hc, if_neg hc]
      rfl

end Cursor

/-! ## Places of a parse -/

namespace ParseState

variable {scan : ScanSettings} {cs rest : List Char} {kind : TokenKind} {s t : ParseState}

/-- The current token and those behind it are the tokens of a text, wherever it stands. -/
def Faces (scan : ScanSettings) (cs : List Char) (s : ParseState) : Prop :=
  ∃ p, nextSignificant? (Cursor.kept scan (Cursor.scanAll scan.golf ⟨p, cs⟩)) =
    some (s.current, s.rest)

theorem nextSignificant?_ofTokens {tokens : List Token} (h : Terminated tokens) (next : NodeId) :
    nextSignificant? tokens =
      some ((ofTokens tokens next).current, (ofTokens tokens next).rest) := by
  obtain ⟨u, rest, hnext, -⟩ := h.exists_next
  rw [ofTokens_eq hnext, hnext]

theorem faces_ofTokens (scan : ScanSettings) (source : String) (next : NodeId) :
    (ofTokens (tokenize scan source).1 next).Faces scan source.toList := by
  have hnext := nextSignificant?_ofTokens (terminated_tokenize scan source) next
  refine ⟨{}, ?_⟩
  rw [← hnext, tokenize_eq]

/-- Only tokens count. -/
theorem Faces.congr (h : s.Faces scan cs) (hcurrent : t.current = s.current)
    (hrest : t.rest = s.rest) : t.Faces scan cs := by
  obtain ⟨p, h⟩ := h
  exact ⟨p, by rw [h, hcurrent, hrest]⟩

/-- A blank at the front of a text does not count. -/
theorem Faces.blank (h : s.Faces scan (' ' :: cs)) : s.Faces scan cs := by
  obtain ⟨p, h⟩ := h
  refine ⟨p.after ' ', ?_⟩
  rw [Cursor.nextSignificant?_blanks] at h ⊢
  exact h

theorem Faces.terminated (h : s.Faces scan cs) : Terminated (s.current :: s.rest) := by
  obtain ⟨p, h⟩ := h
  obtain ⟨u, rest, hnext, hterminated, -⟩ :=
    (Cursor.terminated_kept scan scan.golf ⟨p, cs⟩).exists_next
  rw [hnext] at h
  cases h
  exact hterminated

/-- The token at the front of a text is the current one, and what is behind it is left. -/
theorem Faces.opens (h : s.Faces scan cs) (ho : Lexeme.Opens scan.golf cs kind rest) :
    s.current.kind = kind ∧ s.advance.Faces scan rest ∧ s.advance.rest.length < s.rest.length := by
  obtain ⟨hsig, heof, text, rfl, hlexeme⟩ := ho
  obtain ⟨p, h⟩ := h
  obtain ⟨t, rfl, hscan⟩ := Cursor.scanAll_lexeme p heof hlexeme
  rw [hscan, Cursor.kept_cons_of_isSignificant scan hsig, nextSignificant?, if_pos hsig,
    Option.some.injEq, Prod.mk.injEq] at h
  obtain ⟨hcurrent, hrest⟩ := h
  obtain ⟨u, us, hnext, -⟩ :=
    (Cursor.terminated_kept scan scan.golf ⟨p.afterAll text, rest⟩).exists_next
  have hadvance : s.advance = { s with current := u, previous := s.current, rest := us } :=
    advance_some (hrest ▸ hnext)
  refine ⟨by rw [← hcurrent], ⟨p.afterAll text, ?_⟩, ?_⟩
  · rw [hnext, hadvance]
  · rw [hadvance, ← hrest]
    exact ParseState.length_of_nextSignificant? hnext

/-- Behind the last token there is the end. -/
theorem Faces.nil (h : s.Faces scan []) : s.current.kind = .eof := by
  obtain ⟨p, h⟩ := h
  have hscan : Cursor.scanAll scan.golf ⟨p, []⟩ = [Cursor.token ⟨p, []⟩ scan.golf] :=
    Cursor.scanAll_of_eq rfl
  have hend : (Cursor.token ⟨p, []⟩ scan.golf).kind = .eof := rfl
  rw [hscan, Cursor.kept_cons_of_isSignificant scan (by rw [hend]; rfl), nextSignificant?,
    if_pos (by rw [hend]; rfl), Option.some.injEq, Prod.mk.injEq] at h
  rw [← h.1, hend]

end ParseState

namespace Parse

/-! ## Computations -/

section Computations

open Excerpt (run_checkHeight_eq)

variable {α β : Type} {scan : ScanSettings} {cs cs' cs'' : List Char} {kind : TokenKind}
  {P : α → Prop} {Q : β → Prop} {x : Parse α}

/-- In front of a text, a computation that comes to a result has read the front of that text, and
what it yields has a property. -/
def Goes (scan : ScanSettings) (cs : List Char) (x : Parse α) (cs' : List Char) (P : α → Prop) :
    Prop :=
  ∀ ⦃s t a⦄, s.Faces scan cs → EStateM.run x s = .ok a t → t.Faces scan cs' ∧ P a

theorem Goes.pure {a : α} (h : P a) : Goes scan cs (pure a) cs P := by
  rintro s _ _ hs ⟨⟩
  exact ⟨hs, h⟩

theorem Goes.bind {f : α → Parse β} (hx : Goes scan cs x cs' P)
    (hf : ∀ a, P a → Goes scan cs' (f a) cs'' Q) : Goes scan cs (x >>= f) cs'' Q := by
  intro s t b hs hrun
  obtain ⟨a, u, hx', hf'⟩ := exists_of_run_bind hrun
  obtain ⟨hu, ha⟩ := hx hs hx'
  exact hf a ha hu hf'

theorem Goes.blank (hx : Goes scan cs x cs' P) : Goes scan (' ' :: cs) x cs' P :=
  fun _ _ _ hs => hx hs.blank

theorem Goes.unblank (hx : Goes scan cs x (' ' :: cs') P) : Goes scan cs x cs' P := by
  intro s t a hs hrun
  obtain ⟨ht, ha⟩ := hx hs hrun
  exact ⟨ht.blank, ha⟩

theorem Goes.get {f : ParseState → Parse β} (h : ∀ s, Goes scan cs (f s) cs' Q) :
    Goes scan cs (MonadState.get >>= f) cs' Q :=
  fun s _ _ hs hrun => h s hs hrun

theorem Goes.current (ho : Lexeme.Opens scan.golf cs kind cs'') {f : Token → Parse β}
    (h : ∀ t : Token, t.kind = kind → Goes scan cs (f t) cs' Q) :
    Goes scan cs (current >>= f) cs' Q :=
  fun s _ _ hs hrun => h s.current (hs.opens ho).1 hs hrun

theorem Goes.isAt (ho : Lexeme.Opens scan.golf cs kind cs'') (kind' : TokenKind)
    {f : Bool → Parse β} (h : Goes scan cs (f (kind == kind')) cs' Q) :
    Goes scan cs (isAt kind' >>= f) cs' Q := by
  show Goes scan cs (Parse.current >>= fun t => f (t.kind == kind')) cs' Q
  refine Goes.current ho fun t ht => ?_
  rw [ht]
  exact h

theorem advance_goes (ho : Lexeme.Opens scan.golf cs kind cs') :
    Goes scan cs advance cs' fun _ => True := by
  rintro s _ _ hs ⟨⟩
  exact ⟨(hs.opens ho).2.1, trivial⟩

theorem expect_goes (ho : Lexeme.Opens scan.golf cs kind cs') {what : String} :
    Goes scan cs (expect kind what) cs' fun _ => True := by
  refine Goes.isAt ho kind ?_
  rw [beq_self_eq_true]
  exact advance_goes ho

theorem accept_goes (ho : Lexeme.Opens scan.golf cs kind cs') :
    Goes scan cs (accept kind) cs' (· = true) := by
  refine Goes.isAt ho kind ?_
  rw [beq_self_eq_true]
  exact (advance_goes ho).bind fun _ _ => .pure rfl

theorem accept_goes_of_ne (ho : Lexeme.Opens scan.golf cs kind cs') {kind' : TokenKind}
    (hne : kind ≠ kind') : Goes scan cs (accept kind') cs (· = false) := by
  refine Goes.isAt ho kind' ?_
  rw [beq_eq_false_iff_ne.2 hne]
  exact .pure rfl

theorem accept_goes_nil {kind : TokenKind} (heof : kind ≠ .eof) :
    Goes scan [] (accept kind) [] (· = false) := by
  intro s t b hs hrun
  have hnone : (s.current.kind == kind) = false := beq_eq_false_iff_ne.2 (hs.nil ▸ heof.symm)
  have haccept : EStateM.run (accept kind) s =
      EStateM.run (if s.current.kind == kind then advance >>= fun _ => Pure.pure true
        else Pure.pure false) s := rfl
  rw [haccept, hnone] at hrun
  cases hrun
  exact ⟨hs, rfl⟩

theorem checkHeight_goes {height : Nat} : Goes scan cs (checkHeight height) cs fun _ => True := by
  intro s t _ hs hrun
  rw [run_checkHeight_eq hrun]
  exact ⟨hs, trivial⟩

theorem make_goes {node : Fresh Node} {span : Span} {line : Nat} {P : Node → Prop}
    (h : ∀ id, P ((node id).1.withSpan span line)) : Goes scan cs (make node span line) cs P := by
  rintro s _ _ hs ⟨⟩
  exact ⟨hs.congr rfl rfl, h s.nextId⟩

theorem nested_goes {settings : ParseSettings} (h : Goes scan cs x cs' P) :
    Goes scan cs (nested settings x) cs' P := by
  intro s t a hs hrun
  obtain ⟨u, hx, rfl⟩ := exists_of_run_nested hrun
  have hdeeper : ({ s with depth := s.depth + 1 } : ParseState).Faces scan cs := hs.congr rfl rfl
  obtain ⟨hu, ha⟩ := h hdeeper hx
  exact ⟨hu.congr rfl rfl, ha⟩

theorem toConsequence_goes (settings : ParseSettings) (n : Node) :
    Goes scan cs (toConsequence settings n) cs fun _ => True := by
  unfold toConsequence
  split
  · split
    · exact make_goes fun _ => trivial
    · exact make_goes fun _ => trivial
  · exact make_goes fun _ => trivial
  · exact .pure trivial

end Computations

/-! ## Expressions without operators behind them -/

section Expressions

variable {scan : ScanSettings} {cs cs' cs'' : List Char} {kind : TokenKind} {P : Node → Prop}
  {settings : ParseSettings} {context : ReadContext} {strength levels : Nat}

/-- An expression ends in front of a token that is no operator. -/
theorem exprWith_goes {operand : OperandParser}
    (h : Goes scan cs (primary settings operand context) cs' P)
    (ho : Lexeme.Opens scan.golf cs' kind cs'') (hjoint : Joint.ofToken? kind = none) :
    Goes scan cs (exprWith settings operand strength context) cs' P := by
  refine h.bind fun n hn => checkHeight_goes.bind fun _ _ => .get fun s => ?_
  refine Goes.current ho fun t ht => ?_
  rw [ht, hjoint]
  exact .pure hn

/-- An expression ends at the end of the source. -/
theorem exprWith_goes_nil {operand : OperandParser}
    (h : Goes scan cs (primary settings operand context) [] P) :
    Goes scan cs (exprWith settings operand strength context) [] P := by
  refine h.bind fun n hn => checkHeight_goes.bind fun _ _ => .get fun s => ?_
  intro s' t m hs hrun
  obtain ⟨_, _, hcurrent, hrun⟩ := exists_of_run_bind hrun
  cases hcurrent
  dsimp only at hrun
  rw [hs.nil] at hrun
  cases hrun
  exact ⟨hs, hn⟩

theorem expr_goes
    (h : ∀ levels, Goes scan cs (exprWith settings (expr settings levels) strength context) cs' P) :
    Goes scan cs (expr settings levels strength context) cs' P := by
  cases levels with
  | zero =>
    rintro s _ _ _ ⟨⟩
  | succ levels => exact nested_goes (h levels)

end Expressions

end Parse

/-! ## Conditions -/

/-- The tokens of a text are those of the same text in front of a break, up to the end. -/
theorem Excerpt.supply_of_shifted {m : Excerpt} {k : Nat} {ts us tokens' : List Token}
    (h : List.Forall₂ (Token.Shifted k) ts us) (ht : Terminated ts)
    (hstop : nextSignificant? tokens' = some (m.stop, m.after)) :
    m.edge.Supply ts (us.dropLast ++ tokens') := by
  induction ht generalizing us with
  | last heof =>
    cases h with
    | cons _ hnil =>
      cases hnil
      exact .last heof hstop
  | @cons t tokens hproper hs ih =>
    cases h with
    | @cons _ u _ us hu h =>
      have hne : us ≠ [] := by
        rintro rfl
        cases h
        cases hs
      rw [List.dropLast_cons_of_ne_nil hne, List.cons_append]
      exact .cons ⟨hu.kind, hproper⟩ (ih h)

theorem Lexeme.opens_comma (golf : Bool) (rest : List Char) :
    Opens golf (',' :: rest) .comma rest :=
  ⟨rfl, by simp, [','], rfl, rfl⟩

theorem Lexeme.opens_lparen (golf : Bool) (rest : List Char) :
    Opens golf ('(' :: rest) .lparen rest :=
  ⟨rfl, by simp, ['('], rfl, rfl⟩

theorem Lexeme.opens_rparen (golf : Bool) (rest : List Char) :
    Opens golf (')' :: rest) .rparen rest :=
  ⟨rfl, by simp, [')'], rfl, rfl⟩

namespace Program

open Parse Excerpt

/-- No token of a source is a comment. -/
def Uncommented (scan : ScanSettings) (source : String) : Prop :=
  ∀ t ∈ Cursor.scanAll scan.golf ⟨{}, source.toList⟩, t.kind ≠ .comment

instance (scan : ScanSettings) (source : String) : Decidable (Uncommented scan source) :=
  inferInstanceAs (Decidable (∀ t ∈ _, _))

/-- A source is read as a condition, from its first token to its last, without errors. -/
structure IsCondition (scan : ScanSettings) (maxDepth : Nat) (source : String) (n : Node) :
    Prop where
  errors : (tokenize scan source).2 = []
  run : ∃ next s, EStateM.run (expr ⟨scan.golf, maxDepth⟩ maxDepth 0 .condition)
    (.ofTokens (tokenize scan source).1 next) = .ok n s ∧ s.current.kind = .eof

/-- Whether a source is read as a condition. -/
def readsCondition (scan : ScanSettings) (maxDepth : Nat) (source : String) : Bool :=
  (tokenize scan source).2.isEmpty &&
    match EStateM.run (expr ⟨scan.golf, maxDepth⟩ maxDepth 0 .condition)
      (.ofTokens (tokenize scan source).1 default) with
    | .ok _ s => s.current.kind == .eof
    | .error _ _ => false

variable {scan : ScanSettings} {maxDepth : Nat} {source : String} {n : Node}

theorem exists_isCondition (h : readsCondition scan maxDepth source = true) :
    ∃ n, IsCondition scan maxDepth source n := by
  obtain ⟨herrors, hrun⟩ := Bool.and_eq_true_iff.1 h
  split at hrun
  · next n s hok => exact ⟨n, List.isEmpty_iff.1 herrors, default, s, hok, beq_iff_eq.1 hrun⟩
  · cases hrun

/-- A parse in front of a text that is followed by a break has the tokens of the text alone before
it, whatever their places. -/
theorem exists_beside (herrors : (tokenize scan source).2 = [])
    (hplain : Uncommented scan source)
    {d : Char} {kind : TokenKind} {below : List Char} (hd : Lexeme.IsBreak d)
    (hkind : kind.breaks = true) (ho : Lexeme.Opens scan.golf (d :: below) kind below)
    {s : ParseState} (hs : s.Faces scan (source.toList ++ d :: below)) (next : NodeId) :
    ∃ m : Excerpt,
      m.Beside (ParseState.ofTokens (tokenize scan source).1 next).rest.length
        (.ofTokens (tokenize scan source).1 next) s ∧
      ∀ t : ParseState, t.current = m.stop → t.rest = m.after → t.Faces scan (d :: below) := by
  obtain ⟨p, hs⟩ := hs
  -- Nothing is open at the end of the text, wherever it is read.
  have hopen : ∀ t ∈ Cursor.scanAll scan.golf ⟨p, source.toList⟩, ¬ t.kind.IsOpen :=
    Cursor.forall_kind_scanAll (P := fun kind => ¬ kind.IsOpen)
      (not_isOpen_of_errors (by rw [herrors]; simp))
  have hcomments : ∀ t ∈ Cursor.scanAll scan.golf ⟨p, source.toList⟩, t.kind ≠ .comment :=
    Cursor.forall_kind_scanAll (P := (· ≠ .comment)) hplain
  obtain ⟨front, last, hall, hlast, hboth, -⟩ := Cursor.scanAll_append_break scan.golf p
    source.toList hd below hopen fun _ => hcomments
  obtain ⟨hsig, heof, text, htext, hlexeme⟩ := ho
  rw [htext] at hlexeme
  obtain ⟨stop, rfl, hstop⟩ :=
    Cursor.scanAll_lexeme (p.afterAll source.toList) heof hlexeme
  rw [← htext] at hstop
  have hkept (ts : List Token) : nextSignificant? (stop :: ts) = some (stop, ts) := by
    rw [nextSignificant?, if_pos hsig]
  let after := Cursor.kept scan (Cursor.scanAll scan.golf
    ⟨(p.afterAll source.toList).afterAll text, below⟩)
  refine ⟨⟨stop, after, hkind⟩, ?_, fun t hcurrent hrest => ⟨p.afterAll source.toList, ?_⟩⟩
  rotate_left
  · rw [hstop, Cursor.kept_cons_of_isSignificant scan hsig, hkept, hcurrent, hrest]
  · have htokens : (tokenize scan source).1 =
        Cursor.kept scan (Cursor.scanAll scan.golf ⟨{}, source.toList⟩) := by
      rw [tokenize_eq]
    have hterminated := terminated_tokenize scan source
    have hnext := ParseState.nextSignificant?_ofTokens hterminated next
    have hshifted := Cursor.kept_shifted scan
      (Cursor.scanAll_shifted scan.golf source.toList (p := {}) (q := p)
        (Nat.zero_add p.offset).symm)
    rw [← htokens] at hshifted
    rw [hall, Cursor.kept_concat scan front hlast] at hshifted
    have hsupply := supply_of_shifted (m := ⟨stop, after, hkind⟩) hshifted hterminated
      (hkept after)
    rw [List.dropLast_concat] at hsupply
    rw [hboth, Cursor.kept_append, hstop, Cursor.kept_cons_of_isSignificant scan hsig] at hs
    exact beside_of_supply hsupply hnext hs

/-- A condition is read in front of a comma or a closing parenthesis as it is read alone, and does
not begin with a closing parenthesis itself. -/
theorem IsCondition.goes (h : IsCondition scan maxDepth source n)
    (hplain : Uncommented scan source)
    {d : Char} {kind : TokenKind} {below : List Char} (hd : Lexeme.IsBreak d)
    (hkind : kind.breaks = true) (ho : Lexeme.Opens scan.golf (d :: below) kind below) :
    (∀ s : ParseState, s.Faces scan (source.toList ++ d :: below) → s.current.kind ≠ .rparen) ∧
      ∀ levels, Goes scan (source.toList ++ d :: below)
        (expr ⟨scan.golf, maxDepth⟩ levels 0 .condition) (d :: below) (n.Alike ·) := by
  obtain ⟨next, u, hrun, hend⟩ := h.run
  constructor
  · intro s hs hparen
    obtain ⟨m, hbeside, -⟩ := exists_beside h.errors hplain hd hkind ho hs next
    rcases hbeside.place with ⟨hpaired, -⟩ | ⟨heof, -⟩
    · exact stuck_expr rfl _ _ _ _ (hpaired.kind.symm.trans hparen) _ _ hrun
    · exact stuck_expr rfl _ _ _ _ heof _ _ hrun
  · intro levels s t a hs hrun'
    obtain ⟨m, hbeside, hfaces⟩ := exists_beside h.errors hplain hd hkind ho hs next
    obtain ⟨hbehind, halike⟩ := expr_matches rfl _ levels 0 .condition hbeside trivial hrun hrun'
    obtain ⟨hcurrent, hrest⟩ := Edge.Place.stopped hbehind.place hend
    exact ⟨hfaces t hcurrent hrest, halike⟩

end Program

end Rulebook
