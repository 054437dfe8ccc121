import Mathlib.Data.List.Chain
import Mathlib.Data.List.Induction
import Mathlib.Data.String.Basic
import Rulebook.Proofs.Token.Scan

/-!
# Tokens tile their source

If nothing is skipped, the tokens of a source stand one behind the other from its first byte to its
last, and each of them knows where it stands.

## Main definitions

* `Token.before`: the text of a source in front of a token
* `Token.StandsIn`: the text, line and column of a token are those of its stretch of the source
* `Cursor.Reached`: a cursor stands behind some of the characters of a source

## Main results

* `Place.afterAll_eq`: bytes, line and column behind a text
* `Cursor.Reached.standsIn`: the token at a cursor stands in the source
* `tokenize_tiles`: the tokens of a source, and its errors
-/

namespace Rulebook

open String (utf8Len)

/-! ## Places behind a text -/

namespace Place

/-- Behind a text there are its bytes, its line ends have been counted, and so have the characters
behind the last of them. -/
theorem afterAll_eq (cs : List Char) :
    afterAll {} cs = ⟨utf8Len cs, 1 + cs.count '\n',
      1 + (cs.reverse.takeWhile (· ≠ '\n')).length⟩ := by
  -- The line and the column depend on the last characters, so texts grow at their ends.
  induction cs using List.reverseRecOn with
  | nil => rfl
  | append_singleton cs c ih =>
    rw [afterAll_append, ih]
    by_cases hc : c = '\n'
    · subst hc
      simp [afterAll, after, Nat.add_assoc]
    · simp [afterAll, after, hc, Nat.add_assoc]

end Place

/-! ## Tokens in a source -/

namespace Token

/-- The text of a source in front of a token. -/
def before (source : String) (t : Token) : String :=
  String.Pos.Raw.extract source 0 ⟨t.span.start⟩

/-- A token begins and ends between characters of a source and has the text between them. Its line
and its column are counted from one: line ends in front of it, and characters behind the last of
these. -/
structure StandsIn (source : String) (t : Token) : Prop where
  start : String.Pos.Raw.IsValid source ⟨t.span.start⟩
  stop : String.Pos.Raw.IsValid source ⟨t.span.stop⟩
  text : String.Pos.Raw.extract source ⟨t.span.start⟩ ⟨t.span.stop⟩ = t.text
  line : t.line = 1 + (t.before source).toList.count '\n'
  column : t.column = 1 + ((t.before source).toList.reverse.takeWhile (· ≠ '\n')).length

/-- A token whose text stands between two others. -/
theorem StandsIn.of_append {t : Token} {front text behind : List Char}
    (htext : t.text = String.ofList text)
    (hspan : t.span = ⟨utf8Len front, utf8Len front + utf8Len text⟩)
    (hline : t.line = (Place.afterAll {} front).line)
    (hcolumn : t.column = (Place.afterAll {} front).column) :
    t.StandsIn (String.ofList (front ++ text ++ behind)) := by
  have hbefore : t.before (String.ofList (front ++ text ++ behind)) = String.ofList front := by
    have hextract := String.extract_of_valid [] front (text ++ behind)
    simpa [before, hspan] using hextract
  refine ⟨?_, ?_, ?_, ?_, ?_⟩
  · rw [hspan, String.Pos.Raw.isValid_iff_exists_append]
    refine ⟨String.ofList front, String.ofList (text ++ behind), ?_, ?_⟩
    · rw [← String.ofList_append, List.append_assoc]
    · rw [String.Pos.Raw.ext_iff, String.byteIdx_rawEndPos, String.utf8ByteSize_ofList]
  · rw [hspan, String.Pos.Raw.isValid_iff_exists_append]
    refine ⟨String.ofList (front ++ text), String.ofList behind, ?_, ?_⟩
    · rw [← String.ofList_append]
    · rw [String.Pos.Raw.ext_iff, String.byteIdx_rawEndPos, String.utf8ByteSize_ofList,
        String.utf8Len_append]
  · rw [hspan, htext, String.extract_of_valid]
  · rw [hbefore, String.toList_ofList, hline, Place.afterAll_eq]
  · rw [hbefore, String.toList_ofList, hcolumn, Place.afterAll_eq]

end Token

/-! ## Cursors in a source -/

namespace Cursor

/-- A cursor stands behind some of the characters of a source, at the place behind them, and in
front of the others. -/
def Reached (source : String) (c : Cursor) : Prop :=
  ∃ front, source.toList = front ++ c.rest ∧ c.place = Place.afterAll {} front

variable {source : String} {c : Cursor} {golf : Bool}

theorem reached_start (source : String) : Reached source ⟨{}, source.toList⟩ :=
  ⟨[], rfl, rfl⟩

theorem Reached.past (h : c.Reached source) (golf : Bool) : (c.past golf).Reached source := by
  obtain ⟨front, hsource, hplace⟩ := h
  refine ⟨front ++ c.rest.take (c.lexeme golf).width, ?_, ?_⟩
  · rw [hsource, List.append_assoc, Cursor.past, List.take_append_drop]
  · rw [Place.afterAll_append, ← hplace, Cursor.past]

/-- The token at a cursor stands in the source. -/
theorem Reached.standsIn (h : c.Reached source) (golf : Bool) :
    (c.token golf).StandsIn source := by
  obtain ⟨front, hsource, hplace⟩ := h
  rw [← String.ofList_toList (s := source), hsource,
    ← List.take_append_drop (c.lexeme golf).width c.rest, ← List.append_assoc]
  refine Token.StandsIn.of_append rfl ?_ ?_ ?_
  · -- The token ends where the cursor behind it stands.
    have hoffset (cs : List Char) : (Place.afterAll {} cs).offset = utf8Len cs := by
      rw [Place.afterAll_eq]
    rw [← String.utf8Len_append, ← hoffset, ← hoffset, Place.afterAll_append, ← hplace]
    rfl
  · rw [← hplace]
    rfl
  · rw [← hplace]
    rfl

/-- What follows a cursor is empty if its token is the end. -/
theorem rest_eq_nil_of_kind_eq (h : (c.token golf).kind = .eof) : c.rest = [] := by
  by_contra hne
  exact (isProper_token hne).ne_eof h

theorem Reached.span_of_kind_eq (hc : c.Reached source) (h : (c.token golf).kind = .eof) :
    (c.token golf).span = ⟨source.utf8ByteSize, source.utf8ByteSize⟩ := by
  obtain ⟨front, hsource, hplace⟩ := hc
  have hrest := rest_eq_nil_of_kind_eq h
  rw [hrest, List.append_nil] at hsource
  have hoffset : c.place.offset = source.utf8ByteSize := by
    rw [hplace, Place.afterAll_eq, ← hsource, ← String.utf8ByteSize_ofList, String.ofList_toList]
  simp only [token, hrest, List.take_nil, Place.afterAll, List.foldl_nil, hoffset]

theorem span_pos (h : c.rest ≠ []) : (c.token golf).span.start < (c.token golf).span.stop := by
  obtain ⟨d, rest, hrest⟩ := List.exists_cons_of_ne_nil h
  have hwidth := Lexeme.width_pos golf d rest
  obtain ⟨width, hwidth⟩ := Nat.exists_eq_add_one.2 hwidth
  have hlexeme : (c.lexeme golf).width = width + 1 := by rw [lexeme, hrest, hwidth]
  -- The first character takes at least one byte, and those behind it take none back.
  have hle := Place.offset_le_afterAll (c.place.after d) (rest.take width)
  rw [Place.offset_after] at hle
  have hpos := d.utf8Size_pos
  simp only [token, hlexeme, hrest, List.take_succ_cons]
  exact Nat.lt_of_lt_of_le (Nat.lt_add_of_pos_right hpos) hle

theorem text_token (golf : Bool) (c : Cursor) :
    (c.token golf).text.toList ++ (c.past golf).rest = c.rest := by
  rw [token, past, String.toList_ofList, List.take_append_drop]

end Cursor

/-! ## All tokens of a source -/

namespace Cursor

variable {source : String}

/-- Each token stands in the source. -/
theorem Reached.standsIn_of_mem {c : Cursor} (h : c.Reached source) {golf : Bool} {t : Token}
    (ht : t ∈ c.scanAll golf) : t.StandsIn source := by
  fun_induction scanAll golf c with
  | case1 c hc =>
    obtain rfl := List.mem_singleton.1 ht
    exact h.standsIn golf
  | case2 c hc ih =>
    rcases List.mem_cons.1 ht with rfl | ht
    · exact h.standsIn golf
    · exact ih (h.past golf) ht

theorem head?_scanAll (golf : Bool) (c : Cursor) :
    (c.scanAll golf).head? = some (c.token golf) := by
  rw [scanAll]
  split <;> rfl

/-- Each token begins where the one in front of it ends. -/
theorem isChain_scanAll (golf : Bool) (c : Cursor) :
    (c.scanAll golf).IsChain fun t u => u.span.start = t.span.stop := by
  fun_induction scanAll golf c with
  | case1 c hc => exact .singleton _
  | case2 c hc ih =>
    refine List.IsChain.cons ih fun u hu => ?_
    rw [head?_scanAll] at hu
    obtain rfl := Option.mem_some.1 hu
    rfl

/-- The texts of the tokens make up the text. -/
theorem texts_scanAll (golf : Bool) (c : Cursor) :
    (c.scanAll golf).flatMap (·.text.toList) = c.rest := by
  fun_induction scanAll golf c with
  | case1 c hc =>
    have hrest := rest_eq_nil_of_kind_eq hc
    simp [token, hrest]
  | case2 c hc ih => rw [List.flatMap_cons, ih, text_token]

/-- The last token is the only one that is the end, and the only one that is empty. -/
theorem Reached.exists_concat {c : Cursor} (h : c.Reached source) (golf : Bool) :
    ∃ front last, c.scanAll golf = front ++ [last] ∧ last.kind = .eof ∧
      last.span = ⟨source.utf8ByteSize, source.utf8ByteSize⟩ ∧
      ∀ t ∈ front, t.kind ≠ .eof ∧ t.span.start < t.span.stop := by
  fun_induction scanAll golf c with
  | case1 c hc => exact ⟨[], c.token golf, rfl, hc, h.span_of_kind_eq hc, List.forall_mem_nil _⟩
  | case2 c hc ih =>
    obtain ⟨front, last, hall, hlast, hspan, hfront⟩ := ih (h.past golf)
    have htoken : (c.token golf).span.start < (c.token golf).span.stop :=
      span_pos (rest_ne_nil_of_kind_ne hc)
    refine ⟨c.token golf :: front, last, by rw [hall, List.cons_append], hlast, hspan, ?_⟩
    exact List.forall_mem_cons.2 ⟨⟨hc, htoken⟩, hfront⟩

end Cursor

/-- An error is that of an error token. -/
def Token.Reports (t : Token) (e : Error) : Prop :=
  ∃ fault, t.kind = .error fault ∧ e = .malformed fault.message t.span t.line t.column

/-- The errors of some tokens are those of the error tokens among them, in order. -/
theorem forall₂_reports (ts : List Token) :
    List.Forall₂ Token.Reports (ts.filter (·.kind.isError)) (ts.filterMap Token.error?) := by
  induction ts with
  | nil => exact .nil
  | cons t ts ih =>
    rw [List.filter_cons, List.filterMap_cons, Token.error?]
    cases hk : t.kind with
    | error fault => exact .cons ⟨fault, hk, rfl⟩ ih
    | _ => exact ih

/-- **Tokens tile their source.** If neither blanks nor comments are skipped, the tokens of a source
end with the only end token, which stands behind the last byte. They begin with the first byte, each
begins where the one in front of it ends, and none but the end is empty. Each one has the text, the
line and the column of its stretch of the source, which begins and ends between characters, so the
texts make up the source. The errors are those of the error tokens, in order. -/
theorem tokenize_tiles (golf : Bool) (source : String) :
    let settings : ScanSettings := { golf, skipBlanks := false, skipComments := false }
    let tokens := (tokenize settings source).1
    let errors := (tokenize settings source).2
    (∃ front last, tokens = front ++ [last] ∧ last.kind = .eof ∧
      last.span = ⟨source.utf8ByteSize, source.utf8ByteSize⟩ ∧
      ∀ t ∈ front, t.kind ≠ .eof ∧ t.span.start < t.span.stop) ∧
      tokens.head?.map (·.span.start) = some 0 ∧
      tokens.IsChain (fun t u => u.span.start = t.span.stop) ∧
      (∀ t ∈ tokens, t.StandsIn source) ∧
      String.join (tokens.map Token.text) = source ∧
      List.Forall₂ Token.Reports (tokens.filter (·.kind.isError)) errors := by
  intro settings tokens errors
  have hstart := Cursor.reached_start source
  have htokens : tokens = Cursor.scanAll golf ⟨{}, source.toList⟩ := by
    simp only [tokens, tokenize_eq, Cursor.kept]
    -- No kind of token is skipped.
    refine List.filter_eq_self.2 fun t _ => ?_
    cases t.kind <;> rfl
  have herrors : errors = tokens.filterMap Token.error? := by
    rw [htokens]
    simp only [errors, settings, tokenize_eq]
  rw [herrors]
  refine ⟨?_, ?_, ?_, ?_, ?_, forall₂_reports tokens⟩
  · rw [htokens]
    exact hstart.exists_concat golf
  · rw [htokens, Cursor.head?_scanAll]
    rfl
  · rw [htokens]
    exact Cursor.isChain_scanAll golf _
  · intro t ht
    rw [htokens] at ht
    exact hstart.standsIn_of_mem ht
  · have htexts := Cursor.texts_scanAll golf ⟨{}, source.toList⟩
    rw [← htokens] at htexts
    rw [← String.toList_inj, String.toList_join, List.flatMap_map]
    exact htexts

end Rulebook
