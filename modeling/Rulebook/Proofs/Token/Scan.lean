import Mathlib.Data.List.Forall2
import Rulebook.Proofs.Token.Lexeme
import Rulebook.Token.Stream

/-!
# All tokens of a source

The tokens of a source, trivia included, are read one behind the other. What a parse gets are
those of them that are not skipped. A source can be cut at the end of a line: the tokens of both
parts are those of the whole, at other places.

## Main definitions

* `Cursor.scanAll`: all tokens from a place on, up to the end token
* `Token.Shifted`: the same token at an offset that is larger by a number of bytes

## Main results

* `tokenize_eq`: what a parse gets in terms of all tokens
* `Cursor.scanAll_append_break`: the tokens of a text in front of a break
* `Cursor.scanAll_append`: the tokens of two parts of a source
* `Cursor.scanAll_shifted`: tokens read from another place on
* `exists_tokenize_append`: what a parse gets from a source in two parts
-/

namespace Rulebook

namespace Cursor

section ScanAll

/-- All tokens from a place on, trivia included, up to the end token. -/
def scanAll (golf : Bool) (c : Cursor) : List Token :=
  if (c.token golf).kind = .eof then [c.token golf]
  else c.token golf :: (c.past golf).scanAll golf
termination_by c.rest.length
decreasing_by exact length_rest_past_lt (rest_ne_nil_of_kind_ne (by assumption))

/-- Tokens that are not skipped. -/
def kept (s : ScanSettings) (tokens : List Token) : List Token :=
  tokens.filter fun t => !s.skips t.kind

theorem scanAll_of_eq {golf : Bool} {c : Cursor} (h : (c.token golf).kind = .eof) :
    c.scanAll golf = [c.token golf] := by
  rw [scanAll, if_pos h]

theorem scanAll_of_ne {golf : Bool} {c : Cursor} (h : (c.token golf).kind ≠ .eof) :
    c.scanAll golf = c.token golf :: (c.past golf).scanAll golf := by
  rw [scanAll, if_neg h]

theorem error?_of_skips {s : ScanSettings} {t : Token} (h : s.skips t.kind) : t.error? = none := by
  unfold Token.error?
  split
  · next hk =>
    rw [hk] at h
    cases h
  · rfl

/-- The next token is the first one that is not skipped. -/
theorem kept_scanAll (s : ScanSettings) (c : Cursor) :
    kept s (c.scanAll s.golf) = (c.next s).1 ::
      if (c.next s).1.kind = .eof then [] else kept s ((c.next s).2.scanAll s.golf) := by
  fun_induction next c s with
  | case1 c hs ih =>
    rw [scanAll_of_ne (kind_ne_eof_of_skips hs), ← ih]
    simp [kept, hs]
  | case2 c hs =>
    by_cases he : (c.token s.golf).kind = .eof
    · rw [scanAll_of_eq he, if_pos he]
      simp [kept, hs]
    · rw [scanAll_of_ne he, if_neg he]
      simp [kept, hs]

/-- Tokens that are skipped are no errors. -/
theorem errors_scanAll (s : ScanSettings) (c : Cursor) :
    (c.scanAll s.golf).filterMap Token.error? = (c.next s).1.error?.toList ++
      if (c.next s).1.kind = .eof then []
      else ((c.next s).2.scanAll s.golf).filterMap Token.error? := by
  have filterMap_cons (t : Token) (ts : List Token) :
      (t :: ts).filterMap Token.error? = t.error?.toList ++ ts.filterMap Token.error? := by
    rw [List.filterMap_cons]
    cases t.error? <;> rfl
  fun_induction next c s with
  | case1 c hs ih =>
    rw [scanAll_of_ne (kind_ne_eof_of_skips hs), ← ih, filterMap_cons, error?_of_skips hs]
    rfl
  | case2 c hs =>
    by_cases he : (c.token s.golf).kind = .eof
    · rw [scanAll_of_eq he, if_pos he, filterMap_cons]
      rfl
    · rw [scanAll_of_ne he, if_neg he, filterMap_cons]

end ScanAll

end Cursor

/-! ## Streams -/

section Streams

/-- The stream behind a scanned token, which was noted if it is an error. -/
theorem TokenStream.next_of_ahead {s : TokenStream} (h : s.ahead = []) :
    s.next.1 = (s.cursor.next s.settings).1 ∧
      s.next.2.settings = s.settings ∧ s.next.2.ahead = [] ∧
      s.next.2.cursor = (s.cursor.next s.settings).2 ∧
      s.next.2.errors.toList =
        s.errors.toList ++ (s.cursor.next s.settings).1.error?.toList := by
  obtain ⟨settings, size, cursor, ahead, errors⟩ := s
  subst h
  refine ⟨rfl, rfl, rfl, rfl, ?_⟩
  simp only [next, scan]
  cases (cursor.next settings).1.error? <;> simp

theorem TokenStream.drain_eq {s : TokenStream} (h : s.ahead = []) :
    s.drain.1 = Cursor.kept s.settings (s.cursor.scanAll s.settings.golf) ∧
      s.drain.2.errors.toList =
        s.errors.toList ++ (s.cursor.scanAll s.settings.golf).filterMap Token.error? := by
  fun_induction TokenStream.drain s with
  | case1 s token s' hs hk =>
    obtain ⟨htoken, hsettings, hahead, hcursor, herrors⟩ := next_of_ahead h
    rw [hs] at htoken herrors
    subst htoken
    rw [Cursor.kept_scanAll, Cursor.errors_scanAll, if_pos hk, if_pos hk, List.append_nil]
    exact ⟨rfl, herrors⟩
  | case2 s token s' hs hk tokens last hdrain ih =>
    obtain ⟨htoken, hsettings, hahead, hcursor, herrors⟩ := next_of_ahead h
    rw [hs] at htoken herrors hsettings hahead hcursor
    subst htoken
    obtain ⟨htokens, hlast⟩ := ih hahead
    rw [hdrain, hsettings, hcursor] at htokens hlast
    rw [Cursor.kept_scanAll, Cursor.errors_scanAll, if_neg hk, if_neg hk, ← List.append_assoc,
      ← herrors]
    exact ⟨congrArg _ htokens, hlast⟩

/-- What a parse gets are the tokens of the source that are not skipped, and the errors of all. -/
theorem tokenize_eq (s : ScanSettings) (source : String) :
    tokenize s source =
      (Cursor.kept s (Cursor.scanAll s.golf ⟨{}, source.toList⟩),
        (Cursor.scanAll s.golf ⟨{}, source.toList⟩).filterMap Token.error?) := by
  obtain ⟨htokens, herrors⟩ :=
    TokenStream.drain_eq (s := TokenStream.ofSource s source) rfl
  simp only [tokenize, htokens, herrors]
  rfl

end Streams

/-! ## Places -/

namespace Place

section Offsets

theorem offset_after (p : Place) (c : Char) : (p.after c).offset = p.offset + c.utf8Size := by
  rw [after]
  split <;> rfl

theorem afterAll_append (p : Place) (cs ds : List Char) :
    p.afterAll (cs ++ ds) = (p.afterAll cs).afterAll ds :=
  List.foldl_append

theorem offset_le_afterAll (p : Place) (cs : List Char) : p.offset ≤ (p.afterAll cs).offset := by
  induction cs generalizing p with
  | nil => exact Nat.le_refl _
  | cons c cs ih =>
    refine Nat.le_trans ?_ (ih (p.after c))
    rw [offset_after]
    exact Nat.le_add_right _ _

/-- Behind the same text offsets are as far apart as before it. -/
theorem offset_afterAll_add {p q : Place} {k : Nat} (h : q.offset = p.offset + k)
    (cs : List Char) : (q.afterAll cs).offset = (p.afterAll cs).offset + k := by
  induction cs generalizing p q with
  | nil => exact h
  | cons c cs ih =>
    refine ih ?_
    rw [offset_after, offset_after, h]
    omega

end Offsets

end Place

/-! ## Sources in two parts -/

/-- The same token, at an offset that is larger by a number of bytes. -/
structure Token.Shifted (k : Nat) (t t' : Token) : Prop where
  kind : t'.kind = t.kind
  start : t'.span.start = t.span.start + k

namespace Cursor

section Parts

theorem isProper_token {golf : Bool} {c : Cursor} (h : c.rest ≠ []) :
    (c.token golf).kind.IsProper :=
  Lexeme.isProper_ofChars golf h

/-- The tokens of a text are proper ones up to its end. -/
theorem scanAll_concat (golf : Bool) (c : Cursor) :
    ∃ front last, scanAll golf c = front ++ [last] ∧ last.kind = .eof ∧
      ∀ t ∈ front, t.kind.IsProper := by
  fun_induction scanAll golf c with
  | case1 c h => exact ⟨[], c.token golf, rfl, h, nofun⟩
  | case2 c h ih =>
    obtain ⟨front, last, hall, hlast, hfront⟩ := ih
    have hproper : (c.token golf).kind.IsProper := isProper_token (rest_ne_nil_of_kind_ne h)
    refine ⟨c.token golf :: front, last, ?_, hlast, List.forall_mem_cons.2 ⟨hproper, hfront⟩⟩
    rw [hall, List.cons_append]

/-- The same text, read from another place on. -/
theorem scanAll_shifted (golf : Bool) (cs : List Char) {p q : Place} {k : Nat}
    (h : q.offset = p.offset + k) :
    List.Forall₂ (Token.Shifted k) (scanAll golf ⟨p, cs⟩) (scanAll golf ⟨q, cs⟩) := by
  -- Induction on the length of the text, since a lexeme may take several characters.
  induction hn : cs.length using Nat.strongRecOn generalizing cs p q with
  | ind n ih =>
    have hhead : Token.Shifted k (token ⟨p, cs⟩ golf) (token ⟨q, cs⟩ golf) := ⟨rfl, h⟩
    by_cases he : (token ⟨p, cs⟩ golf).kind = .eof
    · rw [scanAll_of_eq he, scanAll_of_eq (hhead.kind.trans he)]
      exact .cons hhead .nil
    · have hlt : (past ⟨p, cs⟩ golf).rest.length < cs.length :=
        length_rest_past_lt (rest_ne_nil_of_kind_ne he)
      have he' : (token ⟨q, cs⟩ golf).kind ≠ .eof := he
      rw [scanAll_of_ne he, scanAll_of_ne he']
      refine .cons hhead (ih _ (hn ▸ hlt) _ ?_ rfl)
      exact Place.offset_afterAll_add h _

theorem afterAll_past (golf : Bool) (c : Cursor) :
    (c.past golf).place.afterAll (c.past golf).rest = c.place.afterAll c.rest := by
  rw [past]
  dsimp only
  rw [← Place.afterAll_append, List.take_append_drop]

/-- The first token of a text does not depend on what stands behind a break. -/
theorem token_append {golf : Bool} (p : Place) {cs : List Char} {d : Char} (hd : Lexeme.IsBreak d)
    (below : List Char) (hne : cs ≠ []) (h : ¬ (token ⟨p, cs⟩ golf).kind.IsOpen)
    (hcomment : d ≠ '\n' → (token ⟨p, cs⟩ golf).kind ≠ .comment) :
    token ⟨p, cs ++ d :: below⟩ golf = token ⟨p, cs⟩ golf ∧
      past ⟨p, cs ++ d :: below⟩ golf =
        ⟨(past ⟨p, cs⟩ golf).place, (past ⟨p, cs⟩ golf).rest ++ d :: below⟩ := by
  have hlexeme := Lexeme.ofChars_append hd below hne h hcomment
  have hle := Lexeme.width_le golf cs
  constructor
  · simp only [token, lexeme, hlexeme, List.take_append_of_le_length hle]
  · simp only [past, lexeme, hlexeme, List.take_append_of_le_length hle,
      List.drop_append_of_le_length hle]

/-- The tokens of a text in front of a break: those of the text alone without its end, and those
from the break on. -/
theorem scanAll_append_break (golf : Bool) (p : Place) (cs : List Char) {d : Char}
    (hd : Lexeme.IsBreak d) (below : List Char)
    (h : ∀ t ∈ scanAll golf ⟨p, cs⟩, ¬ t.kind.IsOpen)
    (hcomment : d ≠ '\n' → ∀ t ∈ scanAll golf ⟨p, cs⟩, t.kind ≠ .comment) :
    ∃ front last, scanAll golf ⟨p, cs⟩ = front ++ [last] ∧ last.kind = .eof ∧
      scanAll golf ⟨p, cs ++ d :: below⟩ =
        front ++ scanAll golf ⟨p.afterAll cs, d :: below⟩ ∧
      ∀ t ∈ front, t.kind.IsProper ∧ t.span.start < (p.afterAll cs).offset := by
  -- Induction on the length of the text, from its first lexeme to the break.
  induction hn : cs.length using Nat.strongRecOn generalizing cs p with
  | ind n ih =>
    by_cases hne : cs = []
    · subst hne
      exact ⟨[], token ⟨p, []⟩ golf, scanAll_of_eq rfl, rfl, rfl, nofun⟩
    · have hproper : (token ⟨p, cs⟩ golf).kind.IsProper := isProper_token hne
      rw [scanAll_of_ne hproper.ne_eof] at h hcomment
      obtain ⟨hopen, hrest⟩ := List.forall_mem_cons.1 h
      obtain ⟨htoken, hpast⟩ := token_append p hd below hne hopen fun hline =>
        (List.forall_mem_cons.1 (hcomment hline)).1
      have hplace := afterAll_past golf ⟨p, cs⟩
      have hlt : (past ⟨p, cs⟩ golf).rest.length < cs.length := length_rest_past_lt hne
      obtain ⟨front, last, hall, hlast, hboth, hfront⟩ :=
        ih _ (hn ▸ hlt) (past ⟨p, cs⟩ golf).place (past ⟨p, cs⟩ golf).rest hrest
          (fun hline => (List.forall_mem_cons.1 (hcomment hline)).2) rfl
      rw [hplace] at hboth hfront
      refine ⟨token ⟨p, cs⟩ golf :: front, last, ?_, hlast, ?_, ?_⟩
      · rw [scanAll_of_ne hproper.ne_eof, List.cons_append]
        exact congrArg _ hall
      · rw [scanAll_of_ne (htoken ▸ hproper.ne_eof), htoken, hpast, List.cons_append]
        exact congrArg _ hboth
      · refine List.forall_mem_cons.2 ⟨⟨hproper, ?_⟩, hfront⟩
        -- The first token begins where the text does, and its first character takes bytes.
        obtain ⟨c, rest, rfl⟩ := List.exists_cons_of_ne_nil hne
        have hle : (p.after c).offset ≤ (p.afterAll (c :: rest)).offset :=
          Place.offset_le_afterAll (p.after c) rest
        rw [Place.offset_after] at hle
        exact Nat.lt_of_lt_of_le (Nat.lt_add_of_pos_right c.utf8Size_pos) hle

/-- The tokens of a text in front of further lines: those of the text alone without its end, the
end of the line, and those of the lines below. -/
theorem scanAll_append (golf : Bool) (p : Place) (cs below : List Char)
    (h : ∀ t ∈ scanAll golf ⟨p, cs⟩, ¬ t.kind.IsOpen) :
    ∃ front last newline,
      scanAll golf ⟨p, cs⟩ = front ++ [last] ∧ last.kind = .eof ∧ newline.kind = .lineEnd ∧
      scanAll golf ⟨p, cs ++ '\n' :: below⟩ =
        front ++ newline :: scanAll golf ⟨(p.afterAll cs).after '\n', below⟩ ∧
      ∀ t ∈ front, t.kind.IsProper ∧ t.span.start < ((p.afterAll cs).after '\n').offset := by
  obtain ⟨front, last, hall, hlast, hboth, hfront⟩ :=
    scanAll_append_break golf p cs (.inl rfl) below h fun hline => absurd rfl hline
  have hnewline : (token ⟨p.afterAll cs, '\n' :: below⟩ golf).kind = .lineEnd := rfl
  refine ⟨front, last, token ⟨p.afterAll cs, '\n' :: below⟩ golf, hall, hlast, hnewline, ?_, ?_⟩
  · rw [hboth, scanAll_of_ne (by rw [hnewline]; nofun)]
    rfl
  · intro t ht
    rw [Place.offset_after]
    exact ⟨(hfront t ht).1, Nat.lt_add_right _ (hfront t ht).2⟩

theorem kept_append (s : ScanSettings) (ts us : List Token) :
    kept s (ts ++ us) = kept s ts ++ kept s us :=
  List.filter_append ..

/-- The end is not skipped. -/
theorem kept_concat (s : ScanSettings) (front : List Token) {last : Token}
    (h : last.kind = .eof) : kept s (front ++ [last]) = kept s front ++ [last] := by
  have hlast : kept s [last] = [last] := by
    rw [kept, List.filter_cons, h]
    rfl
  rw [kept_append, hlast]

theorem mem_of_mem_kept {s : ScanSettings} {t : Token} {ts : List Token} (h : t ∈ kept s ts) :
    t ∈ ts :=
  List.mem_of_mem_filter h

/-- The same tokens are kept at other places. -/
theorem kept_shifted (s : ScanSettings) {k : Nat} {ts us : List Token}
    (h : List.Forall₂ (Token.Shifted k) ts us) :
    List.Forall₂ (Token.Shifted k) (kept s ts) (kept s us) := by
  induction h with
  | nil => exact .nil
  | @cons t u ts us htu _ ih =>
    rw [kept, kept, List.filter_cons, List.filter_cons, htu.kind]
    split
    · exact .cons htu ih
    · exact ih

theorem isSome_error?_of_kind_eq {t u : Token} (h : u.kind = t.kind) :
    u.error?.isSome = t.error?.isSome := by
  rw [Token.error?, Token.error?, h]
  cases t.kind <;> rfl

/-- The same tokens are errors at other places. -/
theorem errors_shifted {k : Nat} {ts us : List Token}
    (h : List.Forall₂ (Token.Shifted k) ts us) :
    us.filterMap Token.error? = [] ↔ ts.filterMap Token.error? = [] := by
  induction h with
  | nil => exact Iff.rfl
  | @cons t u ts us htu _ ih =>
    rw [List.filterMap_eq_nil_iff, List.filterMap_eq_nil_iff] at ih ⊢
    rw [List.forall_mem_cons, List.forall_mem_cons, ih, ← Option.not_isSome_iff_eq_none,
      ← Option.not_isSome_iff_eq_none, isSome_error?_of_kind_eq htu.kind]

end Parts

end Cursor

section Sources

variable (s : ScanSettings) (source below : String)

theorem exists_tokenize : ∃ front last, (tokenize s source).1 = front ++ [last] ∧
    last.kind = .eof ∧ ∀ t ∈ front, t.kind.IsProper := by
  obtain ⟨front, last, hall, hlast, hfront⟩ :=
    Cursor.scanAll_concat s.golf ⟨{}, source.toList⟩
  refine ⟨Cursor.kept s front, last, ?_, hlast, fun t ht => hfront t (Cursor.mem_of_mem_kept ht)⟩
  rw [tokenize_eq, hall, Cursor.kept_concat s front hlast]

variable {s source}

/-- What is open at the end of a source is one of its errors. -/
theorem not_isOpen_of_errors
    (h : ∀ detail span line column, .malformed detail span line column ∈ (tokenize s source).2 →
      detail ≠ LexicalFault.unterminatedString.message ∧
        detail ≠ LexicalFault.unterminatedComment.message) :
    ∀ t ∈ Cursor.scanAll s.golf ⟨{}, source.toList⟩, ¬ t.kind.IsOpen := by
  intro t ht hopen
  rw [tokenize_eq] at h
  have hmem {fault : LexicalFault} (hk : t.kind = .error fault) :
      .malformed fault.message t.span t.line t.column ∈
        (Cursor.scanAll s.golf ⟨{}, source.toList⟩).filterMap Token.error? :=
    List.mem_filterMap.2 ⟨t, ht, by rw [Token.error?, hk]⟩
  rcases hopen with hk | hk
  · exact (h _ _ _ _ (hmem hk)).1 rfl
  · exact (h _ _ _ _ (hmem hk)).2 rfl

/-- The tokens of a source in two parts: those of the first part without its end, the end of a
line, and those of the second part. Strings and block comments are terminated in the first part. -/
theorem exists_tokenize_append
    (h : ∀ detail span line column, .malformed detail span line column ∈ (tokenize s source).2 →
      detail ≠ LexicalFault.unterminatedString.message ∧
        detail ≠ LexicalFault.unterminatedComment.message) :
    ∃ front last between behind offset, (tokenize s source).1 = front ++ [last] ∧
      last.kind = .eof ∧ (∀ t ∈ front, t.kind.IsProper ∧ t.span.start < offset) ∧
      (tokenize s (source ++ "\n" ++ below)).1 = front ++ (between ++ behind) ∧
      (∀ t ∈ between, t.kind.isSignificant = false) ∧
      List.Forall₂ (Token.Shifted offset) (tokenize s below).1 behind ∧
      ((tokenize s (source ++ "\n" ++ below)).2 = [] ↔
        (tokenize s source).2 = [] ∧ (tokenize s below).2 = []) := by
  have hchars : (source ++ "\n" ++ below).toList = source.toList ++ '\n' :: below.toList := by
    simp
  obtain ⟨front, last, newline, hall, hlast, hnewline, hboth, hfront⟩ :=
    Cursor.scanAll_append s.golf {} source.toList below.toList (not_isOpen_of_errors h)
  generalize hplace : (Place.after (Place.afterAll {} source.toList) '\n') = place at hboth hfront
  have hshifted := Cursor.scanAll_shifted s.golf below.toList (p := {}) (q := place)
    (Nat.zero_add place.offset).symm
  refine ⟨Cursor.kept s front, last, Cursor.kept s [newline],
    Cursor.kept s (Cursor.scanAll s.golf ⟨place, below.toList⟩), place.offset, ?_, hlast,
    fun t ht => hfront t (Cursor.mem_of_mem_kept ht), ?_, ?_, ?_, ?_⟩
  · rw [tokenize_eq, hall, Cursor.kept_concat s front hlast]
  · rw [tokenize_eq, hchars, hboth, ← Cursor.kept_append, ← Cursor.kept_append]
    rfl
  · intro t ht
    rw [List.mem_singleton.1 (Cursor.mem_of_mem_kept ht), hnewline]
    rfl
  · rw [tokenize_eq]
    exact Cursor.kept_shifted s hshifted
  · have hend : last.error? = none := by rw [Token.error?, hlast]
    have hline : newline.error? = none := by rw [Token.error?, hnewline]
    rw [tokenize_eq, tokenize_eq, tokenize_eq, hchars, hboth, hall]
    simp only [List.filterMap_append, List.filterMap_cons_none hend,
      List.filterMap_cons_none hline, List.filterMap_nil, List.append_nil, List.append_eq_nil_iff,
      Cursor.errors_shifted hshifted]

end Sources

end Rulebook
