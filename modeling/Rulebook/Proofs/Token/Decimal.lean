import Rulebook.Proofs.Token.Spelling
import Rulebook.Proofs.Token.Stream

/-!
# Decimal numbers in a source

A number takes the digits at the front of a text, a point if a digit follows it, the digits behind
that, and the mark of an exponent with the digits behind it. It may also begin with a point, if a
digit follows. Whatever the text is and wherever it goes on, what is taken can be read as a number,
unless digits are missing behind the mark. So there is no other way for a decimal number to fail.

## Main definitions

* `IsDecimal`: the grammar of decimal literals
* `Lexeme.SetsRadix`: a number is not a decimal one
* `Lexeme.ScansDecimal`: what comes of a decimal number at the front of a text
* `LexicalFault.Begins`: how messages are told apart

## Main results

* `exists_readDecimal?`: all decimal literals can be read
* `Lexeme.scansDecimal_decimalNumber`: what is taken is a decimal literal, or ends with a mark
* `Lexeme.ofChars_ne_unreadable`: no lexeme is a number that cannot be read
* `LexicalFault.exists_eq_number_of_message`: no other fault has the message of such a number
* `tokenize_decimals`: all of this, and what it means for sources
-/

namespace Rulebook

open Cursor (Before)

/-! ## Decimal literals -/

/-- One digit or more. -/
def IsDigits (cs : List Char) : Prop :=
  cs ≠ [] ∧ ∀ c ∈ cs, isDecimalDigit c = true

/-- Digits, or a point with digits behind it. There may be digits in front of the point as well. -/
inductive IsMantissa : List Char → Prop where
  | whole {ds : List Char} (hds : IsDigits ds) : IsMantissa ds
  | fraction {ds fs : List Char} (hds : ∀ c ∈ ds, isDecimalDigit c = true) (hfs : IsDigits fs) :
    IsMantissa (ds ++ '.' :: fs)

/-- The letter of an exponent, in either case, and its sign, if it has one. -/
inductive IsExponentMark : List Char → Prop where
  | bare {e : Char} (he : e = 'e' ∨ e = 'E') : IsExponentMark [e]
  | signed {e sign : Char} (he : e = 'e' ∨ e = 'E') (hsign : sign = '+' ∨ sign = '-') :
    IsExponentMark [e, sign]

/-- A decimal literal: a mantissa, and an exponent with at least one digit, if it has one. -/
inductive IsDecimal : List Char → Prop where
  | plain {m : List Char} (hm : IsMantissa m) : IsDecimal m
  | exponent {m mark ds : List Char} (hm : IsMantissa m) (hmark : IsExponentMark mark)
    (hds : IsDigits ds) : IsDecimal (m ++ mark ++ ds)

section Literals

variable {ds m mark rest text : List Char}

theorem isDecimalDigit_of_letter {e : Char} (he : e = 'e' ∨ e = 'E') :
    isDecimalDigit e = false ∧ e ≠ '.' := by
  rcases he with rfl | rfl <;> decide

/-- Neither a digit nor a point stands at the front of what follows a mantissa. -/
theorem IsExponentMark.before (h : IsExponentMark mark) (rest : List Char) :
    Before (fun c => isDecimalDigit c = false ∧ c ≠ '.') (mark ++ rest) := by
  cases h with
  | bare he => exact Cursor.before_append (isDecimalDigit_of_letter he) [] rest
  | signed he _ => exact Cursor.before_append (isDecimalDigit_of_letter he) [_] rest

theorem span_digits (hds : ∀ c ∈ ds, isDecimalDigit c = true)
    (hrest : Before (isDecimalDigit · = false) rest) :
    (ds ++ rest).takeWhile isDecimalDigit = ds ∧ (ds ++ rest).dropWhile isDecimalDigit = rest := by
  rw [List.takeWhile_append_of_pos hds, List.dropWhile_append_of_pos hds]
  cases rest with
  | nil => simp
  | cons c rest =>
    have hc : isDecimalDigit c = false := hrest c rfl
    simp [hc]

/-- A mantissa is taken off the front of a literal. -/
theorem exists_ofChars?_append (hm : IsMantissa m)
    (hrest : Before (fun c => isDecimalDigit c = false ∧ c ≠ '.') rest) :
    ∃ whole fraction, DecimalText.ofChars? (m ++ rest) =
      (DecimalText.exponentOfChars? rest).map fun e => ⟨whole, fraction, e.1, e.2⟩ := by
  have hdigit : Before (isDecimalDigit · = false) rest := fun c hc => (hrest c hc).1
  cases hm with
  | whole hds =>
    obtain ⟨htake, hdrop⟩ := span_digits hds.2 hdigit
    refine ⟨m, [], ?_⟩
    rw [DecimalText.ofChars?, htake, hdrop]
    -- What follows does not begin with a point.
    rcases rest with _ | ⟨c, rest⟩
    · simp [hds.1]
    · have hpoint : c ≠ '.' := (hrest c rfl).2
      simp [hds.1, hpoint]
  | @fraction ds fs hds hfs =>
    have hpoint : Before (isDecimalDigit · = false) ('.' :: (fs ++ rest)) := by
      rintro _ ⟨⟩
      decide
    obtain ⟨htake, hdrop⟩ := span_digits hds hpoint
    obtain ⟨htake', hdrop'⟩ := span_digits hfs.2 hdigit
    refine ⟨ds, fs, ?_⟩
    rw [List.append_assoc, List.cons_append, DecimalText.ofChars?, htake, hdrop]
    simp [htake', hdrop', hfs.1]

/-- An exponent is read if there are digits behind its mark. -/
theorem exists_exponentOfChars? (hmark : IsExponentMark mark) (hds : IsDigits ds) :
    ∃ negative, DecimalText.exponentOfChars? (mark ++ ds) = some (negative, ds) := by
  have hall : ds.all isDecimalDigit = true := List.all_eq_true.2 hds.2
  cases hmark with
  | @bare e he =>
    -- The first digit is no sign.
    obtain ⟨hne, hdigits⟩ := hds
    obtain ⟨d, ds, rfl⟩ := List.exists_cons_of_ne_nil hne
    have hd := hdigits d List.mem_cons_self
    have hminus : d ≠ '-' := by
      rintro rfl
      exact absurd hd (by decide)
    have hplus : d ≠ '+' := by
      rintro rfl
      exact absurd hd (by decide)
    refine ⟨false, ?_⟩
    rw [List.singleton_append, DecimalText.exponentOfChars?, if_pos he]
    · simp [hall]
    · intro digits heq
      exact hminus (List.cons.inj heq).1
    · intro digits heq
      exact hplus (List.cons.inj heq).1
  | @signed e sign he hsign =>
    rcases hsign with rfl | rfl
    · refine ⟨false, ?_⟩
      rw [List.cons_append, List.singleton_append, DecimalText.exponentOfChars?, if_pos he]
      simp [hds.1, hall]
    · refine ⟨true, ?_⟩
      rw [List.cons_append, List.singleton_append, DecimalText.exponentOfChars?, if_pos he]
      simp [hds.1, hall]

/-- All decimal literals can be read. -/
theorem exists_readDecimal? (h : IsDecimal text) : ∃ x, readDecimal? text = some x := by
  cases h with
  | plain hm =>
    obtain ⟨whole, fraction, hread⟩ := exists_ofChars?_append hm (Cursor.before_nil _)
    rw [List.append_nil] at hread
    rw [readDecimal?, hread]
    exact ⟨_, rfl⟩
  | exponent hm hmark hds =>
    obtain ⟨whole, fraction, hread⟩ := exists_ofChars?_append hm (hmark.before _)
    obtain ⟨negative, hexponent⟩ := exists_exponentOfChars? hmark hds
    rw [hexponent] at hread
    rw [List.append_assoc, readDecimal?, hread]
    exact ⟨_, rfl⟩

end Literals

/-! ## Decimal numbers at the front of a text -/

namespace Lexeme

/-- A number is written in another base than ten. -/
def SetsRadix (c : Char) (rest : List Char) : Prop :=
  c = '0' ∧ ∃ m ∈ rest.head?, m = 'x' ∨ m = 'X' ∨ m = 'b' ∨ m = 'B'

/-- What comes of a decimal number at the front of a text. Either what is taken is a decimal
literal, and the lexeme is the number that it denotes, or it ends with the mark of an exponent that
has no digits, and the lexeme says so. -/
inductive ScansDecimal (cs : List Char) (l : Lexeme) : Prop where
  | number {x : Float} (htext : IsDecimal (cs.take l.width))
    (hread : readDecimal? (cs.take l.width) = some x) (hkind : l.kind = .number x)
  | incomplete {m mark : List Char} (htext : cs.take l.width = m ++ mark) (hm : IsMantissa m)
    (hmark : IsExponentMark mark) (hnext : Before (isDecimalDigit · = false) (cs.drop l.width))
    (hkind : l.kind = .error (.exponent (String.ofList (cs.take l.width))))

section Decimals

variable {c : Char} {rest cs : List Char}

theorem isDecimalDigit_of_mem_takeWhile :
    ∀ c ∈ cs.takeWhile isDecimalDigit, isDecimalDigit c = true :=
  List.all_eq_true.1 List.all_takeWhile

theorem before_of_takeWhile_eq_nil (h : cs.takeWhile isDecimalDigit = []) :
    Before (isDecimalDigit · = false) cs := by
  cases cs with
  | nil => exact Cursor.before_nil _
  | cons d cs =>
    rintro _ ⟨⟩
    by_contra hd
    rw [Bool.not_eq_false] at hd
    rw [List.takeWhile_cons_of_pos hd] at h
    cases h

theorem isMantissa_mantissa (h : mantissa cs ≠ []) : IsMantissa (mantissa cs) := by
  revert h
  unfold mantissa
  dsimp only
  split
  · next c rest _ =>
    split
    · next hc =>
      have hdigits : ∀ d ∈ c :: rest.takeWhile isDecimalDigit, isDecimalDigit d = true :=
        List.forall_mem_cons.2 ⟨hc, isDecimalDigit_of_mem_takeWhile⟩
      exact fun _ => .fraction isDecimalDigit_of_mem_takeWhile ⟨List.cons_ne_nil _ _, hdigits⟩
    · exact fun h => .whole ⟨h, isDecimalDigit_of_mem_takeWhile⟩
  · exact fun h => .whole ⟨h, isDecimalDigit_of_mem_takeWhile⟩

theorem isExponentMark_exponentMark (h : exponentMark cs ≠ []) :
    IsExponentMark (exponentMark cs) := by
  revert h
  unfold exponentMark
  split
  · split
    · next he =>
      split
      · exact fun _ => .signed he (.inl rfl)
      · exact fun _ => .signed he (.inr rfl)
      · exact fun _ => .bare he
    · exact fun h => absurd rfl h
  · exact fun h => absurd rfl h

/-- The characters of a decimal literal are those of its number. -/
theorem ScansDecimal.of_isDecimal {text : List Char} (htake : cs.take text.length = text)
    (h : IsDecimal text) : ScansDecimal cs ⟨decimalNumber.numberKind text, text.length⟩ := by
  obtain ⟨x, hread⟩ := exists_readDecimal? h
  have hkind : decimalNumber.numberKind text = .number x := by
    rw [decimalNumber.numberKind, hread]
  refine .number (x := x) ?_ ?_ hkind
  · exact htake.symm ▸ h
  · exact htake.symm ▸ hread

/-- The scan of a decimal number goes in three steps: its mantissa, the mark of its exponent, and
the digits behind the mark. -/
theorem scansDecimal_decimalNumber (h : mantissa cs ≠ []) :
    ScansDecimal cs (decimalNumber cs) := by
  have hm : IsMantissa (mantissa cs) := isMantissa_mantissa h
  have hfront : cs.take (mantissa cs).length = mantissa cs :=
    (List.prefix_iff_eq_take.1 (isPrefix_mantissa cs)).symm
  unfold decimalNumber
  dsimp only
  generalize mantissa cs = front at hm hfront ⊢
  by_cases hnil : exponentMark (cs.drop front.length) = []
  · rw [if_pos hnil]
    exact .of_isDecimal hfront (.plain hm)
  rw [if_neg hnil]
  have hmark := isExponentMark_exponentMark hnil
  have hbehind := List.prefix_iff_eq_take.1 (isPrefix_exponentMark (cs.drop front.length))
  generalize exponentMark (cs.drop front.length) = mark at hmark hbehind ⊢
  have htake : cs.take (front.length + mark.length) = front ++ mark := by
    rw [List.take_add, hfront, ← hbehind]
  rw [List.drop_drop]
  split
  · next hdigits =>
    exact .incomplete htake hm hmark (before_of_takeWhile_eq_nil hdigits) (by rw [htake])
  · next hdigits =>
    have hall : cs.take (front ++ mark ++ (cs.drop (front.length + mark.length)).takeWhile
        isDecimalDigit).length =
        front ++ mark ++ (cs.drop (front.length + mark.length)).takeWhile isDecimalDigit := by
      rw [List.length_append, List.length_append, List.take_add, htake,
        ← List.prefix_iff_eq_take.1 (List.takeWhile_prefix _)]
    have hscan := ScansDecimal.of_isDecimal hall
      (.exponent hm hmark ⟨hdigits, isDecimalDigit_of_mem_takeWhile⟩)
    rwa [List.length_append, List.length_append] at hscan

theorem number_of_not_setsRadix (h : ¬SetsRadix c rest) :
    number c rest = decimalNumber (c :: rest) := by
  unfold number
  split
  · exact absurd ⟨rfl, _, rfl, .inl rfl⟩ h
  · exact absurd ⟨rfl, _, rfl, .inr (.inl rfl)⟩ h
  · exact absurd ⟨rfl, _, rfl, .inr (.inr (.inl rfl))⟩ h
  · exact absurd ⟨rfl, _, rfl, .inr (.inr (.inr rfl))⟩ h
  · rfl

/-- A number at the front of a text is read as one. -/
theorem ofChars_of_startsNumber (golf : Bool) (h : startsNumber c rest.head? = true) :
    ofChars golf (c :: rest) = number c rest := by
  have hc : c.isDigit = true ∨ c = '.' := by
    rw [startsNumber, Bool.or_eq_true, Bool.and_eq_true, beq_iff_eq] at h
    exact h.imp_right And.left
  have hne {d : Char} (hdigit : d.isDigit = false) (hpoint : d ≠ '.') : c ≠ d := by
    rintro rfl
    rcases hc with hc | hc
    · exact absurd hc (Bool.eq_false_iff.1 hdigit)
    · exact hpoint hc
  have hblank : ¬isBlank c = true := by
    rcases hc with hc | rfl
    · rw [Char.isDigit, Bool.and_eq_true, decide_eq_true_eq, decide_eq_true_eq] at hc
      have hlow : 48 ≤ c.toNat := hc.1
      have hhigh : c.toNat ≤ 57 := hc.2
      simp only [isBlank, Bool.or_eq_true, Bool.and_eq_true, beq_iff_eq, decide_eq_true_eq]
      omega
    · decide
  have hcomment : ¬startsComment c rest.head? = true := by
    simp [startsComment, hne (d := '#') rfl (by decide), hne (d := '/') rfl (by decide)]
  have hsymbol : symbol? golf c rest.head? = none := by
    unfold symbol?
    split
    all_goals first | rfl | exact absurd rfl (hne rfl (by decide))
  have hquote : ¬(c = '"' ∨ c = '\'') :=
    not_or.2 ⟨hne rfl (by decide), hne rfl (by decide)⟩
  rw [ofChars, if_neg (hne rfl (by decide)), if_neg hblank, if_neg hcomment, significant, hsymbol]
  dsimp only
  rw [if_neg hquote, if_pos h]

theorem scansDecimal_ofChars (golf : Bool) (h : startsNumber c rest.head? = true)
    (hradix : ¬SetsRadix c rest) : ScansDecimal (c :: rest) (ofChars golf (c :: rest)) := by
  rw [ofChars_of_startsNumber golf h, number_of_not_setsRadix hradix]
  exact scansDecimal_decimalNumber (mantissa_ne_nil h)

end Decimals

/-! ## No number is unreadable -/

section Faults

variable {text : String}

/-- The only bad escapes are those of code points and those of unknown characters. -/
def BlamesEscape (s : StringScan) : Prop :=
  ∀ fault ∈ s.fault, fault = .unicodeEscape ∨ ∃ c, fault = .unknownEscape c

theorem BlamesEscape.blame {s : StringScan} (h : BlamesEscape s) {fault : LexicalFault}
    (hfault : fault = .unicodeEscape ∨ ∃ c, fault = .unknownEscape c) :
    BlamesEscape (s.blame fault) := by
  intro f hf
  rcases Option.or_eq_some_iff.1 hf with hold | ⟨-, hnew⟩
  · exact h f hold
  · cases hnew
    exact hfault

theorem BlamesEscape.plainStep {s : StringScan} (h : BlamesEscape s) (quote c : Char) :
    BlamesEscape (s.plainStep quote c) := by
  unfold StringScan.plainStep
  split
  · exact h
  · split <;> exact h

theorem BlamesEscape.escapeStep {s : StringScan} (h : BlamesEscape s) (c : Char) :
    BlamesEscape (s.escapeStep c) := by
  unfold StringScan.escapeStep
  split
  case h_9 => exact h.blame (.inr ⟨_, rfl⟩)
  all_goals exact h

theorem BlamesEscape.unicodeStep {s : StringScan} (h : BlamesEscape s) (digits : List Char) :
    BlamesEscape (s.unicodeStep digits) := by
  unfold StringScan.unicodeStep
  dsimp only
  split
  · exact h
  · exact h.blame (.inl rfl)

theorem BlamesEscape.step {s : StringScan} (h : BlamesEscape s) (quote c : Char) :
    BlamesEscape (s.step quote c) := by
  unfold StringScan.step
  split
  · exact h.plainStep quote c
  · exact h.escapeStep c
  · split
    · exact h
    · exact (h.blame (.inl rfl)).plainStep quote c
  · split
    · exact h
    · split
      · exact h.unicodeStep _
      · exact (h.blame (.inl rfl)).plainStep quote c
  · exact h

theorem run_ne_unreadable (quote : Char) {s : StringScan} (h : BlamesEscape s) (width : Nat)
    (cs : List Char) : (s.run quote width cs).kind ≠ .error (.number text) := by
  induction cs generalizing s width with
  | nil => simp [StringScan.run]
  | cons c rest ih =>
    have hstep : BlamesEscape (s.step quote c) := h.step quote c
    simp only [StringScan.run]
    split
    · intro hkind
      simp only [StringScan.kind] at hkind
      split at hkind
      · next fault hfault =>
        cases hkind
        rcases hstep _ hfault with heq | ⟨c, heq⟩ <;> cases heq
      · cases hkind
    · exact ih hstep _

theorem radixNumber_ne_unreadable (base : Nat) (radix : String) (isDigit : Char → Bool)
    (rest : List Char) : (radixNumber base radix isDigit rest).kind ≠ .error (.number text) := by
  unfold radixNumber
  dsimp only
  split
  · simp
  · split <;> simp

theorem ScansDecimal.ne_unreadable {cs : List Char} {l : Lexeme} (h : ScansDecimal cs l) :
    l.kind ≠ .error (.number text) := by
  cases h with
  | number _ _ hkind => simp [hkind]
  | incomplete _ _ _ _ hkind => simp [hkind]

theorem number_ne_unreadable {c : Char} {rest : List Char}
    (h : startsNumber c rest.head? = true) : (number c rest).kind ≠ .error (.number text) := by
  have hdecimal := scansDecimal_decimalNumber (mantissa_ne_nil h)
  unfold number
  split
  · exact radixNumber_ne_unreadable _ _ _ _
  · exact radixNumber_ne_unreadable _ _ _ _
  · exact radixNumber_ne_unreadable _ _ _ _
  · exact radixNumber_ne_unreadable _ _ _ _
  · exact hdecimal.ne_unreadable

theorem symbol?_ne_unreadable {golf : Bool} {c : Char} {next : Option Char} {l : Lexeme}
    (h : symbol? golf c next = some l) : l.kind ≠ .error (.number text) := by
  unfold symbol? at h
  split at h <;> simp only [Option.some.injEq, reduceCtorEq] at h
  all_goals subst h
  all_goals repeat' split
  all_goals simp

theorem word_ne_unreadable (c : Char) (rest : List Char) :
    (word c rest).kind ≠ .error (.number text) := by
  simp only [word]
  cases h : TokenKind.ofWord? (String.ofList (c :: rest.takeWhile isWordChar)) with
  | none => simp
  | some kind =>
    rintro ⟨⟩
    unfold TokenKind.ofWord? at h
    split at h <;> cases h

theorem Scanned.ne_unreadable {golf : Bool} {c : Char} {rest : List Char} {l : Lexeme}
    (h : Scanned golf c rest l) : l.kind ≠ .error (.number text) := by
  cases h with
  | lineEnd _ => simp
  | blanks _ => simp [blankRun]
  | block _ _ =>
    unfold blockComment
    split <;> simp
  | line _ => simp [lineComment]
  | symbol hsymbol => exact symbol?_ne_unreadable hsymbol
  | quoted _ =>
    refine run_ne_unreadable c ?_ 1 rest
    rintro _ ⟨⟩
  | number hnumber => exact number_ne_unreadable hnumber
  | word => exact word_ne_unreadable c rest
  | unexpected => simp

/-- No lexeme is a number that cannot be read. -/
theorem ofChars_ne_unreadable (golf : Bool) (cs : List Char) :
    (ofChars golf cs).kind ≠ .error (.number text) := by
  cases cs with
  | nil => simp [ofChars]
  | cons c rest => exact (scanned_ofChars golf c rest).ne_unreadable

end Faults

end Lexeme

/-! ## Messages -/

namespace LexicalFault

section Messages

/-- A text begins with another one. -/
def Begins (front text : String) : Prop :=
  front.toList <+: text.toList

theorem Begins.refl (text : String) : Begins text text :=
  List.prefix_rfl

theorem Begins.append {front text : String} (h : Begins front text) (more : String) :
    Begins front (text ++ more) := by
  rw [Begins, String.toList_append]
  exact List.IsPrefix.trans h (List.prefix_append _ _)

theorem Begins.take_eq {front text : String} (h : Begins front text) {n : Nat}
    (hn : n ≤ front.toList.length) : text.toList.take n = front.toList.take n := by
  obtain ⟨behind, hbehind⟩ := h
  rw [← hbehind, List.take_append_of_le_length hn]

/-- The first letters of a message that does not begin with the name of a base. Nine of them tell
the message about an unreadable number from the others. -/
theorem exists_begins_message (f : LexicalFault) :
    (∃ text, f = .number text) ∨ (∃ radix digits, f = .radixRange radix digits) ∨
      ∃ front, Begins front f.message ∧ 9 ≤ front.toList.length ∧
        front.toList.take 9 ≠ "invalid n".toList := by
  cases f with
  | number text => exact .inl ⟨text, rfl⟩
  | radixRange radix digits => exact .inr (.inl ⟨radix, digits, rfl⟩)
  | unexpected c =>
    have h : Begins "unexpected character '" (unexpected c).message :=
      ((Begins.refl _).append _).append _
    exact .inr (.inr ⟨_, h, by decide, by decide⟩)
  | lone c =>
    have h : Begins "unexpected '" (lone c).message :=
      (((((Begins.refl _).append _).append _).append _).append _).append _
    exact .inr (.inr ⟨_, h, by decide, by decide⟩)
  | unterminatedString => exact .inr (.inr ⟨_, Begins.refl _, by decide, by decide⟩)
  | unterminatedComment => exact .inr (.inr ⟨_, Begins.refl _, by decide, by decide⟩)
  | unicodeEscape => exact .inr (.inr ⟨_, Begins.refl _, by decide, by decide⟩)
  | unknownEscape c =>
    have h : Begins "unknown escape sequence '\\" (unknownEscape c).message :=
      ((Begins.refl _).append _).append _
    exact .inr (.inr ⟨_, h, by decide, by decide⟩)
  | exponent text =>
    have h : Begins "incomplete exponent in '" (exponent text).message :=
      ((Begins.refl _).append _).append _
    exact .inr (.inr ⟨_, h, by decide, by decide⟩)
  | emptyRadix radix =>
    have h : Begins "incomplete " (emptyRadix radix).message :=
      ((Begins.refl _).append _).append _
    exact .inr (.inr ⟨_, h, by decide, by decide⟩)
  | lookahead asked limit =>
    have h : Begins "lookahead of " (lookahead asked limit).message :=
      (((Begins.refl _).append _).append _).append _
    exact .inr (.inr ⟨_, h, by decide, by decide⟩)

theorem number_message_ne_radixRange (text radix digits : String) :
    (radixRange radix digits).message ≠ (number text).message := by
  intro h
  have hmessage : radix ++ " literal '" ++ digits ++ "' out of range" =
      "invalid number literal '" ++ text ++ "'" := h
  have hlast := congrArg (fun s : String => s.toList.getLast?) hmessage
  have hrange : "' out of range".toList.getLast? = some 'e' := by decide
  have hquote : "'".toList.getLast? = some '\'' := by decide
  simp only [String.toList_append, List.getLast?_append, hrange, hquote, Option.some_or] at hlast
  cases hlast

/-- The message about an unreadable number is that of no other fault. -/
theorem exists_eq_number_of_message {f : LexicalFault} {text : String}
    (h : f.message = (number text).message) : ∃ text', f = .number text' := by
  rcases exists_begins_message f with hf | ⟨radix, digits, rfl⟩ | ⟨front, hf, hlength, hfront⟩
  · exact hf
  · exact absurd h (number_message_ne_radixRange text radix digits)
  · have hnumber : Begins "invalid number literal '" (number text).message :=
      ((Begins.refl _).append _).append _
    have htake : front.toList.take 9 = "invalid number literal '".toList.take 9 := by
      rw [← hf.take_eq hlength, h, hnumber.take_eq (by decide)]
    exact absurd (htake.trans (by decide)) hfront

end Messages

end LexicalFault

/-! ## Sources -/

section Sources

theorem Cursor.ne_unreadable_of_mem_scanAll {golf : Bool} {c : Cursor} {t : Token}
    (ht : t ∈ c.scanAll golf) (text : String) : t.kind ≠ .error (.number text) := by
  fun_induction scanAll golf c with
  | case1 c h =>
    rw [List.mem_singleton.1 ht]
    exact Lexeme.ofChars_ne_unreadable golf c.rest
  | case2 c h ih =>
    rcases List.mem_cons.1 ht with rfl | ht
    · exact Lexeme.ofChars_ne_unreadable golf c.rest
    · exact ih ht

/-- **Decimal numbers can be read.** What is taken of a text that begins with a digit, or with a
point and a digit, is a decimal literal, unless it ends with the mark of an exponent without
digits. All decimal literals denote numbers. So the error about a number that cannot be read is
never met, in no text and in no source, by its kind or by its message. -/
theorem tokenize_decimals :
    (∀ golf c rest, Lexeme.startsNumber c rest.head? = true → ¬Lexeme.SetsRadix c rest →
        Lexeme.ScansDecimal (c :: rest) (Lexeme.ofChars golf (c :: rest))) ∧
      (∀ text, IsDecimal text → ∃ x, readDecimal? text = some x) ∧
      (∀ golf cs text, (Lexeme.ofChars golf cs).kind ≠ .error (.number text)) ∧
      ∀ scan source,
        (∀ t ∈ (tokenize scan source).1, ∀ text, t.kind ≠ .error (.number text)) ∧
          ∀ detail span line column,
            .malformed detail span line column ∈ (tokenize scan source).2 →
              ∀ text, detail ≠ (LexicalFault.number text).message := by
  have hkept (scan : ScanSettings) (source : String) :
      ∀ t ∈ (tokenize scan source).1, ∀ text, t.kind ≠ .error (.number text) := by
    intro t ht
    rw [tokenize_eq] at ht
    exact Cursor.ne_unreadable_of_mem_scanAll (Cursor.mem_of_mem_kept ht)
  refine ⟨fun golf c rest => Lexeme.scansDecimal_ofChars golf, fun text => exists_readDecimal?,
    fun golf cs text => Lexeme.ofChars_ne_unreadable golf cs, fun scan source => ⟨hkept scan source,
      fun detail span line column hmem text hdetail => ?_⟩⟩
  -- The error is that of a token, which has another kind.
  rw [errors_tokenize] at hmem
  obtain ⟨t, ht, herror⟩ := List.mem_filterMap.1 hmem
  cases hkind : t.kind with
  | error fault =>
    rw [Token.error?, hkind] at herror
    cases herror
    obtain ⟨text', rfl⟩ := LexicalFault.exists_eq_number_of_message hdetail
    exact hkept scan source t ht text' hkind
  | _ =>
    rw [Token.error?, hkind] at herror
    cases herror

/-- A number that goes on to the comma behind it, a literal that begins with a point, and a source
with an exponent that lacks its digits. -/
theorem tokenize_decimals_exponent :
    (Lexeme.startsNumber '1' ['2', '.', '5', 'e', '-', '3', ','].head? = true ∧
        ¬Lexeme.SetsRadix '1' ['2', '.', '5', 'e', '-', '3', ','] ∧
        Lexeme.ScansDecimal ['1', '2', '.', '5', 'e', '-', '3', ',']
          (Lexeme.ofChars false ['1', '2', '.', '5', 'e', '-', '3', ','])) ∧
      (IsDecimal ['.', '5', 'E', '1'] ∧ ∃ x, readDecimal? ['.', '5', 'E', '1'] = some x) ∧
      (Lexeme.ofChars true ['1', 'e', '+']).kind ≠ .error (.number "1e+") ∧
      (∃ t ∈ (tokenize {} "1e+ 2.5").1,
        t.kind = .error (.exponent "1e+") ∧ t.kind ≠ .error (.number "1e+")) ∧
      Error.malformed (LexicalFault.exponent "1e+").message ⟨0, 3⟩ 1 1 ∈
          (tokenize {} "1e+ 2.5").2 ∧
        (LexicalFault.exponent "1e+").message ≠ (LexicalFault.number "1e+").message := by
  have hradix : ¬Lexeme.SetsRadix '1' ['2', '.', '5', 'e', '-', '3', ','] := by
    rintro ⟨hzero, -⟩
    exact absurd hzero (by decide)
  have hdigit {d : Char} (hd : isDecimalDigit d = true) : IsDigits [d] :=
    ⟨List.cons_ne_nil _ _, List.forall_mem_singleton.2 hd⟩
  have hliteral : IsDecimal ['.', '5', 'E', '1'] :=
    .exponent (.fraction (List.forall_mem_nil _) (hdigit rfl)) (.bare (.inr rfl)) (hdigit rfl)
  have htoken : (⟨.error (.exponent "1e+"), "1e+", ⟨0, 3⟩, 1, 1⟩ : Token) ∈
      (tokenize {} "1e+ 2.5").1 := by decide +kernel
  have herror : Error.malformed (LexicalFault.exponent "1e+").message ⟨0, 3⟩ 1 1 ∈
      (tokenize {} "1e+ 2.5").2 := by decide +kernel
  exact ⟨⟨by decide, hradix, tokenize_decimals.1 false '1' _ (by decide) hradix⟩,
    ⟨hliteral, tokenize_decimals.2.1 _ hliteral⟩, tokenize_decimals.2.2.1 true _ _,
    ⟨_, htoken, rfl, (tokenize_decimals.2.2.2 {} "1e+ 2.5").1 _ htoken _⟩, herror,
    (tokenize_decimals.2.2.2 {} "1e+ 2.5").2 _ _ _ _ herror _⟩

end Sources

end Rulebook
