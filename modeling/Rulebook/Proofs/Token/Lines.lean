import Rulebook.Proofs.Token.Tiling

/-!
# Sources taken apart at the end of a line

A source can be taken apart at the end of a line if no string or block comment is open there. The
tokens and the errors of the lines below are those of these lines alone, moved by the bytes and the
line ends of what stands above them.

## Main definitions

* `Token.moved`, `Error.moved`: a token or a lexical error, bytes and lines further on

## Main results

* `Cursor.scanAll_moved`: the tokens of a text that is read from another place on
* `tokenize_lines`: the tokens and the errors of a source in two parts
-/

namespace Rulebook

open String (utf8Len)

/-! ## Moved places -/

/-- The stretch that begins and ends a number of bytes further on. -/
def Span.moved (bytes : Nat) (span : Span) : Span :=
  ⟨span.start + bytes, span.stop + bytes⟩

/-- The token at a place that is bytes and lines further on, in the same column. -/
def Token.moved (bytes lines : Nat) (t : Token) : Token :=
  { t with span := t.span.moved bytes, line := t.line + lines }

/-- The same defect of a source, bytes and lines further on. Other errors have no place. -/
def Error.moved (bytes lines : Nat) : Error → Error
  | .malformed detail span line column =>
    .malformed detail (span.moved bytes) (line + lines) column
  | e => e

theorem Token.error?_moved (bytes lines : Nat) (t : Token) :
    (t.moved bytes lines).error? = t.error?.map (Error.moved bytes lines) := by
  rw [error?, error?, moved]
  cases t.kind <;> rfl

/-- A place is bytes and lines further on than another one, in the same column. -/
structure Place.Moved (bytes lines : Nat) (p q : Place) : Prop where
  offset : q.offset = p.offset + bytes
  line : q.line = p.line + lines
  column : q.column = p.column

namespace Place

variable {bytes lines : Nat} {p q : Place}

theorem Moved.after (h : Moved bytes lines p q) (c : Char) :
    Moved bytes lines (p.after c) (q.after c) := by
  obtain ⟨hoffset, hline, hcolumn⟩ := h
  unfold Place.after
  split
  · exact ⟨by dsimp only; omega, by dsimp only; omega, rfl⟩
  · exact ⟨by dsimp only; omega, hline, by dsimp only; omega⟩

/-- Behind the same text places are as far apart as before it. -/
theorem Moved.afterAll (h : Moved bytes lines p q) (cs : List Char) :
    Moved bytes lines (p.afterAll cs) (q.afterAll cs) := by
  induction cs generalizing p q with
  | nil => exact h
  | cons c cs ih => exact ih (h.after c)

/-- The first place of the line below a text. -/
theorem moved_below (cs : List Char) :
    Moved (utf8Len cs + 1) (1 + cs.count '\n') {} ((Place.afterAll {} cs).after '\n') := by
  rw [afterAll_eq]
  refine ⟨?_, ?_, rfl⟩
  · exact (Nat.zero_add _).symm
  · exact Nat.add_comm _ _

end Place

/-! ## Moved tokens -/

namespace Cursor

variable {bytes lines : Nat} {p q : Place}

theorem token_moved (golf : Bool) (h : Place.Moved bytes lines p q) (cs : List Char) :
    token ⟨q, cs⟩ golf = (token ⟨p, cs⟩ golf).moved bytes lines := by
  have hstop := (h.afterAll (cs.take (Lexeme.ofChars golf cs).width)).offset
  simp only [token, lexeme, Token.moved, Span.moved, h.offset, h.line, h.column, hstop]

/-- The tokens of a text that is read from another place on are at other places. -/
theorem scanAll_moved (golf : Bool) (h : Place.Moved bytes lines p q) (cs : List Char) :
    scanAll golf ⟨q, cs⟩ = (scanAll golf ⟨p, cs⟩).map (Token.moved bytes lines) := by
  -- Induction on the length of the text, since a lexeme may take several characters.
  induction hn : cs.length using Nat.strongRecOn generalizing cs p q with
  | ind n ih =>
    have htoken := token_moved golf h cs
    have hkind : (token ⟨q, cs⟩ golf).kind = (token ⟨p, cs⟩ golf).kind := rfl
    by_cases he : (token ⟨p, cs⟩ golf).kind = .eof
    · rw [scanAll_of_eq he, scanAll_of_eq (hkind.trans he), htoken, List.map_singleton]
    · have hlt : (past ⟨p, cs⟩ golf).rest.length < cs.length :=
        length_rest_past_lt (rest_ne_nil_of_kind_ne he)
      rw [scanAll_of_ne he, scanAll_of_ne (hkind ▸ he), htoken, List.map_cons]
      exact congrArg _ (ih _ (hn ▸ hlt) (h.afterAll _) _ rfl)

theorem kept_moved (s : ScanSettings) (ts : List Token) :
    kept s (ts.map (Token.moved bytes lines)) = (kept s ts).map (Token.moved bytes lines) :=
  List.filter_map

theorem errors_moved (ts : List Token) :
    (ts.map (Token.moved bytes lines)).filterMap Token.error? =
      (ts.filterMap Token.error?).map (Error.moved bytes lines) := by
  rw [List.filterMap_map, List.map_filterMap]
  exact congrArg (ts.filterMap ·) (funext (Token.error?_moved bytes lines))

end Cursor

/-! ## Sources -/

section Sources

/-- If blanks and comments are skipped and no string or block comment is open at the end of a
source, then the tokens of the source in front of further lines are its own without the end,
followed by those of the lines below, moved by its bytes and its lines. So are the errors. -/
theorem tokenize_lines (golf : Bool) (source below : String)
    (h : ∀ detail span line column,
      .malformed detail span line column ∈ (tokenize { golf } source).2 →
        detail ≠ LexicalFault.unterminatedString.message ∧
          detail ≠ LexicalFault.unterminatedComment.message) :
    ((tokenize { golf } (source ++ "\n" ++ below)).1 =
        (tokenize { golf } source).1.dropLast ++
          (tokenize { golf } below).1.map
            (Token.moved (source.utf8ByteSize + 1) (1 + source.toList.count '\n'))) ∧
      (tokenize { golf } (source ++ "\n" ++ below)).2 =
        (tokenize { golf } source).2 ++
          (tokenize { golf } below).2.map
            (Error.moved (source.utf8ByteSize + 1) (1 + source.toList.count '\n')) := by
  have hchars : (source ++ "\n" ++ below).toList = source.toList ++ '\n' :: below.toList := by
    simp
  have hbytes : utf8Len source.toList = source.utf8ByteSize := by
    rw [← String.utf8ByteSize_ofList, String.ofList_toList]
  obtain ⟨front, last, newline, hall, hlast, hnewline, hboth, -⟩ :=
    Cursor.scanAll_append golf {} source.toList below.toList (not_isOpen_of_errors h)
  have hmoved := Cursor.scanAll_moved golf (Place.moved_below source.toList) below.toList
  have hkept : Cursor.kept { golf } [newline] = [] := by
    rw [Cursor.kept, List.filter_cons, hnewline]
    rfl
  have herror : newline.error? = none := by rw [Token.error?, hnewline]
  have hend : last.error? = none := by rw [Token.error?, hlast]
  rw [hbytes] at hmoved
  rw [tokenize_eq, tokenize_eq, tokenize_eq, hchars, hboth, hall, hmoved]
  constructor
  · dsimp only
    rw [Cursor.kept_concat _ _ hlast, List.dropLast_concat, ← List.singleton_append,
      Cursor.kept_append, Cursor.kept_append, hkept, Cursor.kept_moved, List.nil_append]
  · dsimp only
    rw [List.filterMap_append, List.filterMap_append, List.filterMap_cons_none herror,
      List.filterMap_cons_none hend, List.filterMap_nil, List.append_nil, Cursor.errors_moved]

/-- A name in several bytes, a string with a line end in it, a number without its exponent and a
question mark in front of a line that goes on with digits, a colon and an unexpected character. -/
theorem tokenize_lines_exponent :
    (∀ detail span line column,
      .malformed detail span line column ∈ (tokenize { golf := true } "é 'a\nb' ? 1e").2 →
        detail ≠ LexicalFault.unterminatedString.message ∧
          detail ≠ LexicalFault.unterminatedComment.message) ∧
      ((tokenize { golf := true } ("é 'a\nb' ? 1e" ++ "\n" ++ "5 : @")).1 =
          (tokenize { golf := true } "é 'a\nb' ? 1e").1.dropLast ++
            (tokenize { golf := true } "5 : @").1.map (Token.moved 14 2)) ∧
        (tokenize { golf := true } ("é 'a\nb' ? 1e" ++ "\n" ++ "5 : @")).2 =
          (tokenize { golf := true } "é 'a\nb' ? 1e").2 ++
            (tokenize { golf := true } "5 : @").2.map (Error.moved 14 2) := by
  have herrors : (tokenize { golf := true } "é 'a\nb' ? 1e").2 =
      [.malformed (LexicalFault.exponent "1e").message ⟨11, 13⟩ 2 6] := by decide +kernel
  have hopen : ∀ detail span line column,
      .malformed detail span line column ∈ (tokenize { golf := true } "é 'a\nb' ? 1e").2 →
        detail ≠ LexicalFault.unterminatedString.message ∧
          detail ≠ LexicalFault.unterminatedComment.message := by
    intro detail span line column hmem
    rw [herrors, List.mem_singleton] at hmem
    cases hmem
    decide
  exact ⟨hopen, tokenize_lines true "é 'a\nb' ? 1e" "5 : @" hopen⟩

end Sources

end Rulebook
