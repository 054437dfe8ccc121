import Rulebook.Node.Printer
import Rulebook.Proofs.Token.Spelling

/-!
# Quoted text is read back

Which characters are hidden is a matter of tables, so how a text is quoted is a relation here: any
character may be written by its code point. Whatever is chosen, a string literal denotes the text
that was quoted. An escape ends where it says it does, so the characters behind it are never taken
for a part of it, such as digits behind a null character.

## Main definitions

* `Escape`: the ways to write a character between double quotes
* `Quotation`: a text between double quotes

## Main results

* `quotation_quoted`: a text that is quoted for printing
* `StringScan.run_escape`: an escape is read as the character that it stands for
* `tokenize_quotation`: a quotation is read as the text that was quoted
* `Node.tokenize_text`: so are the strings and the actions of the host's that a tree prints
-/

namespace Rulebook

/-! ## Quotations -/

section Quotations

/-- The ways to write a character between double quotes: as itself, by a letter or a sign behind a
backslash, or by its code point in at most six hexadecimal digits. -/
inductive Escape : Char → List Char → Prop
  | plain {c : Char} (hquote : c ≠ '"') (hbackslash : c ≠ '\\') : Escape c [c]
  | quote : Escape '"' ['\\', '"']
  | backslash : Escape '\\' ['\\', '\\']
  | lineEnd : Escape '\n' ['\\', 'n']
  | tab : Escape '\t' ['\\', 't']
  | return : Escape '\r' ['\\', 'r']
  | null : Escape '\x00' ['\\', '0']
  | code {c : Char} {digits : List Char} (hne : digits ≠ []) (hlimit : digits.length ≤ 6)
    (hdigits : ∀ d ∈ digits, isHexDigit d = true) (hvalue : numberOfDigits 16 digits = c.toNat) :
    Escape c (['\\', 'u', '\x7b'] ++ digits ++ ['\x7d'])

/-- A text between double quotes, each character in one of the ways to write it. -/
def Quotation (s text : String) : Prop :=
  ∃ pieces, List.Forall₂ Escape s.toList pieces ∧ text.toList = ['"'] ++ pieces.flatten ++ ['"']

/-! ### Digits -/

theorem digitValue_digitChar : ∀ d < 16, digitValue d.digitChar = d := by
  decide

theorem isHexDigit_digitChar : ∀ d < 16, isHexDigit d.digitChar = true := by
  decide

theorem numberOfDigits_concat (base : Nat) (digits : List Char) (d : Char) :
    numberOfDigits base (digits ++ [d]) = numberOfDigits base digits * base + digitValue d :=
  List.foldl_append

/-- The hexadecimal digits of a number write that number. -/
theorem numberOfDigits_hexDigits (n : Nat) :
    numberOfDigits 16 (hexDigits n) = n ∧ ∀ d ∈ hexDigits n, isHexDigit d = true := by
  -- The last digit is the remainder, those in front of it are the digits of the quotient.
  induction n using Nat.strongRecOn with
  | ind n ih =>
    rw [hexDigits, Nat.toDigits_eq_if (by decide)]
    split
    · next hlt =>
      refine ⟨?_, List.forall_mem_singleton.2 (isHexDigit_digitChar n hlt)⟩
      exact (Nat.zero_add _).trans (digitValue_digitChar n hlt)
    · next hge =>
      obtain ⟨hvalue, hdigits⟩ := ih (n / 16) (by omega)
      have hlast : n % 16 < 16 := Nat.mod_lt n (by decide)
      constructor
      · rw [numberOfDigits_concat, digitValue_digitChar _ hlast, ← hexDigits, hvalue]
        omega
      · exact List.forall_mem_append.2
          ⟨hdigits, List.forall_mem_singleton.2 (isHexDigit_digitChar _ hlast)⟩

/-- Code points have no more than six digits. -/
theorem length_hexDigits_le (c : Char) : (hexDigits c.toNat).length ≤ 6 := by
  rw [hexDigits, Nat.length_toDigits_le_iff (by decide) (by decide)]
  have hvalid : c.toNat.isValidChar := c.valid
  rcases hvalid with hlt | ⟨-, hlt⟩
  · omega
  · omega

/-! ### Printing -/

/-- A character is printed in one of these ways. -/
theorem escape_escapeChar (c : Char) : Escape c (escapeChar c) := by
  unfold escapeChar
  split
  · exact .quote
  · exact .backslash
  · exact .lineEnd
  · exact .tab
  · exact .return
  · exact .null
  -- Other characters stand for themselves unless they are hidden.
  · split
    · exact .plain ‹_› ‹_›
    · obtain ⟨hvalue, hdigits⟩ := numberOfDigits_hexDigits c.toNat
      exact .code Nat.toDigits_ne_nil (length_hexDigits_le c) hdigits hvalue

theorem quotation_quoted (s : String) : Quotation s (quoted s) := by
  refine ⟨s.toList.map escapeChar, ?_, ?_⟩
  · rw [List.forall₂_map_right_iff]
    exact List.forall₂_same.2 fun c _ => escape_escapeChar c
  · rw [quoted, String.toList_ofList, List.flatMap_def]
    rfl

end Quotations

/-! ## Reading -/

namespace StringScan

section Reading

/-- A character that does not close the literal. -/
theorem run_cons {s : StringScan} {c : Char} (h : (s.step '"' c).state ≠ .closed) (width : Nat)
    (rest : List Char) : run '"' s width (c :: rest) = run '"' (s.step '"' c) (width + 1) rest := by
  rw [run]
  exact if_neg h

/-- The digits of a code point are gathered. -/
theorem run_digits {gathered digits : List Char} (hdigits : ∀ d ∈ digits, isHexDigit d = true)
    (hlimit : gathered.length + digits.length ≤ 6) (value : List Char) (width : Nat)
    (rest : List Char) :
    run '"' { value, state := .unicodeDigits gathered } width (digits ++ rest) =
      run '"' { value, state := .unicodeDigits (gathered ++ digits) } (width + digits.length)
        rest := by
  -- Each digit moves from those ahead to those gathered, so their number stays the same.
  induction digits generalizing gathered width with
  | nil => rw [List.append_nil, List.nil_append, List.length_nil, Nat.add_zero]
  | cons d digits ih =>
    obtain ⟨hd, hdigits⟩ := List.forall_mem_cons.1 hdigits
    rw [List.length_cons] at hlimit
    have hroom : gathered.length < 6 := by omega
    have hstep : step { value, state := .unicodeDigits gathered } '"' d =
        { value, state := .unicodeDigits (gathered ++ [d]) } := by
      simp [step, hd, hroom]
    have hfits : (gathered ++ [d]).length + digits.length ≤ 6 := by
      rw [List.length_append, List.length_singleton]
      omega
    rw [List.cons_append, run_cons (by simp [hstep]), hstep, ih hdigits hfits, List.append_assoc,
      List.singleton_append, List.length_cons, Nat.add_right_comm, Nat.add_assoc width]

/-- An escape is read as the character that it stands for. -/
theorem run_escape {c : Char} {piece : List Char} (h : Escape c piece) (value : List Char)
    (width : Nat) (rest : List Char) :
    run '"' { value } width (piece ++ rest) =
      run '"' { value := c :: value } (width + piece.length) rest := by
  cases h with
  | plain hquote hbackslash =>
    have hstep : step { value } '"' c = { value := c :: value } := by
      simp [step, plainStep, hquote, hbackslash, push]
    rw [List.singleton_append, run_cons (by simp [hstep]), hstep]
    rfl
  | code hne hlimit hdigits hvalue =>
    rename_i digits
    -- The brace behind the digits ends them, and they write a code point.
    have hclose : step { value, state := .unicodeDigits digits } '"' '\x7d' =
        { value := c :: value } := by
      have hvalid : c.toNat.isValidChar := c.valid
      have hbrace : isHexDigit '\x7d' = false := by decide
      simp [step, hbrace, unicodeStep, hne, hvalue, hvalid, push, Char.ofNat_toNat]
    calc run '"' { value } width (['\\', 'u', '\x7b'] ++ digits ++ ['\x7d'] ++ rest)
      _ = run '"' { value } width ('\\' :: 'u' :: '\x7b' :: (digits ++ '\x7d' :: rest)) := by
        simp only [List.append_assoc, List.cons_append, List.nil_append]
      _ = run '"' { value, state := .unicodeDigits [] } (width + 3) (digits ++ '\x7d' :: rest) :=
        rfl
      _ = run '"' { value, state := .unicodeDigits digits } (width + 3 + digits.length)
          ('\x7d' :: rest) :=
        run_digits hdigits (by rwa [List.length_nil, Nat.zero_add]) value (width + 3) _
      _ = run '"' { value := c :: value } (width + 3 + digits.length + 1) rest := by
        rw [run_cons (by rw [hclose]; exact StringState.noConfusion), hclose]
      _ = _ := by
        congr 1
        simp only [List.length_append, List.length_cons, List.length_nil]
        omega
  | _ => rfl

/-- A text between double quotes is read up to the closing one. -/
theorem run_pieces {cs : List Char} {pieces : List (List Char)}
    (h : List.Forall₂ Escape cs pieces) (value : List Char) (width : Nat) (rest : List Char) :
    run '"' { value } width (pieces.flatten ++ rest) =
      run '"' { value := cs.reverse ++ value } (width + pieces.flatten.length) rest := by
  induction h generalizing value width with
  | nil => rfl
  | @cons c piece cs pieces hpiece _ ih =>
    rw [List.flatten_cons, List.append_assoc, run_escape hpiece, ih, List.length_append,
      List.reverse_cons, List.append_assoc, List.singleton_append, Nat.add_assoc]

/-- A closing quote ends the text. -/
theorem run_close (value : List Char) (width : Nat) (rest : List Char) :
    run '"' { value } width ('"' :: rest) = ⟨.string (String.ofList value.reverse), width + 1⟩ :=
  rfl

end Reading

end StringScan

section Tokens

variable {s text : String}

/-- A quotation is one lexeme, in golf mode or not. -/
theorem Lexeme.ofChars_quotation (golf : Bool) (h : Quotation s text) :
    ofChars golf text.toList = ⟨.string s, text.toList.length⟩ := by
  obtain ⟨pieces, hpieces, htext⟩ := h
  calc ofChars golf text.toList
    _ = StringScan.run '"' {} 1 (pieces.flatten ++ ['"']) := by
      rw [htext]
      rfl
    _ = StringScan.run '"' { value := s.toList.reverse ++ [] } (1 + pieces.flatten.length) ['"'] :=
      StringScan.run_pieces hpieces [] 1 ['"']
    _ = ⟨.string s, 1 + pieces.flatten.length + 1⟩ := by
      rw [StringScan.run_close, List.append_nil, List.reverse_reverse, String.ofList_toList]
    _ = ⟨.string s, text.toList.length⟩ := by
      rw [htext, List.length_append, List.length_append]
      rfl

/-- A quotation is read as the text that was quoted. -/
theorem tokenize_quotation (scan : ScanSettings) (h : Quotation s text) :
    (tokenize scan text).1.map Token.kind = [.string s, .eof] ∧ (tokenize scan text).2 = [] := by
  have hlexeme : Lexeme.ofChars scan.golf (text.toList ++ []) =
      ⟨.string s, text.toList.length⟩ := by
    rw [List.append_nil, Lexeme.ofChars_quotation scan.golf h]
  obtain ⟨t, hkind, hscan⟩ := Cursor.scanAll_lexeme {} (by simp) hlexeme
  -- Behind the quotation there is nothing but the end.
  have hend : Cursor.scanAll scan.golf ⟨Place.afterAll {} text.toList, []⟩ =
      [Cursor.token ⟨Place.afterAll {} text.toList, []⟩ scan.golf] :=
    Cursor.scanAll_of_eq rfl
  rw [List.append_nil, hend, ← List.singleton_append] at hscan
  have hkept : Cursor.kept scan [t] = [t] :=
    List.filter_cons_of_pos (by rw [hkind]; rfl)
  have herror : t.error? = none := by rw [Token.error?, hkind]
  rw [tokenize_eq, hscan, Cursor.kept_concat scan [t] rfl, hkept]
  constructor
  · rw [List.map_append, List.map_singleton, hkind]
    rfl
  · rw [List.filterMap_append, List.filterMap_cons_none herror]
    rfl

/-! ## Printed texts -/

/-- **Printed strings are read back.** A string literal and an action of the host's are printed
between quotes, and however hidden characters are written there, the text that was quoted is what
is read, alone and without an error. -/
theorem Node.tokenize_text (scan : ScanSettings) (s : String) (n : Node)
    (h : n.kind = .literal (.string s) ∨
      ∃ weight executed, n.kind = .consequence ⟨s, .custom, weight, executed⟩) :
    Quotation s n.text ∧ ∀ text, Quotation s text →
      (tokenize scan text).1.map Token.kind = [.string s, .eof] ∧ (tokenize scan text).2 = [] := by
  -- Neither text depends on operands, so one level of the tree is enough.
  have htext : n.text = quoted s := by
    rw [text, maxTreeDepth, render, renderWith]
    rcases h with h | ⟨weight, executed, h⟩
    · rw [h]
      rfl
    · rw [h]
      rfl
  exact ⟨htext ▸ quotation_quoted s, fun text => tokenize_quotation scan⟩

/-- An action that begins with a null character and a digit, in golf mode. -/
theorem Node.tokenize_text_action :
    let s := "\x007 \"\\\n\t\r\x7f"
    let n : Node := ⟨default, .consequence ⟨s, .custom, 2.0, true⟩, default, 1, none, []⟩
    (∃ weight executed, n.kind = .consequence ⟨s, .custom, weight, executed⟩) ∧
      Quotation s n.text ∧ (tokenize .golfed n.text).1.map Token.kind = [.string s, .eof] ∧
        (tokenize .golfed n.text).2 = [] := by
  intro s n
  have hkind : ∃ weight executed, n.kind = .consequence ⟨s, .custom, weight, executed⟩ :=
    ⟨2.0, true, rfl⟩
  obtain ⟨hquotation, hread⟩ := Node.tokenize_text .golfed s n (.inr hkind)
  exact ⟨hkind, hquotation, hread n.text hquotation⟩

end Tokens

end Rulebook
