import Rulebook.Proofs.Number.Reflexive
import Rulebook.Token.Lexeme

/-!
# Lexemes and what stands behind them

A lexeme is part of its text. No lexeme but a string or a block comment goes on behind the end of
a line, so what stands on the lines below changes no other lexeme. Neither does what stands behind
a comma or a closing parenthesis, unless the lexeme is a comment.

## Main definitions

* `TokenKind.IsProper`: not the end of a source, no number that differs from itself, and no empty
  name
* `TokenKind.IsOpen`: a string or a block comment that is not terminated
* `Lexeme.Scanned`: what the first lexeme of a text can be
* `Lexeme.IsBreak`: the end of a line, a comma, or a closing parenthesis

## Main results

* `Lexeme.scanned_ofChars`: there is nothing else that it can be
* `Lexeme.width_le`: a lexeme is part of its text
* `Lexeme.isProper_ofChars`: the lexemes of nonempty texts are proper
* `Lexeme.ofChars_append`: a lexeme in front of a break
-/

namespace Rulebook

/-! ## Kinds of lexemes -/

/-- A kind of token is not the end of a source. If it is a number, the number equals itself, and
if it is a name, the name is not empty. -/
structure TokenKind.IsProper (k : TokenKind) : Prop where
  ne_eof : k ≠ .eof
  beq_self : ∀ x, k = .number x → x == x
  named : k ≠ .identifier ""

/-- A string or a block comment that is not terminated. -/
def TokenKind.IsOpen (k : TokenKind) : Prop :=
  k = .error .unterminatedString ∨ k = .error .unterminatedComment

namespace Lexeme

section Scanned

/-- What the first lexeme of a text can be, and what the text begins with in each case. -/
inductive Scanned (golf : Bool) (c : Char) (rest : List Char) : Lexeme → Prop where
  | lineEnd (hline : c = '\n') : Scanned golf c rest ⟨.lineEnd, 1⟩
  | blanks (hblank : isBlank c = true) : Scanned golf c rest (blankRun rest)
  | block (hslash : c = '/') (hstar : rest.head? = some '*') :
    Scanned golf c rest (blockComment rest.tail)
  | line (hcomment : startsComment c rest.head? = true) : Scanned golf c rest (lineComment rest)
  | symbol {l : Lexeme} (hsymbol : symbol? golf c rest.head? = some l) : Scanned golf c rest l
  | quoted (hquote : c = '"' ∨ c = '\'') : Scanned golf c rest (StringScan.run c {} 1 rest)
  | number (hnumber : startsNumber c rest.head? = true) : Scanned golf c rest (number c rest)
  | word (hline : c ≠ '\n') (hblank : ¬isBlank c = true)
    (hcomment : ¬startsComment c rest.head? = true) (hsymbol : symbol? golf c rest.head? = none)
    (hquote : ¬(c = '"' ∨ c = '\'')) (hnumber : ¬startsNumber c rest.head? = true)
    (hletter : (isLetter c || c == '_') = true) : Scanned golf c rest (word c rest)
  | unexpected : Scanned golf c rest ⟨.error (.unexpected c), 1⟩

theorem scanned_ofChars (golf : Bool) (c : Char) (rest : List Char) :
    Scanned golf c rest (ofChars golf (c :: rest)) := by
  rw [ofChars]
  split
  · next hline => exact .lineEnd hline
  next hline =>
  split
  · next hblank => exact .blanks hblank
  next hblank =>
  split
  · next hcomment =>
    split
    · next hopen => exact .block hopen.1 hopen.2
    · exact .line hcomment
  next hcomment =>
  unfold significant
  split
  · next hsymbol => exact .symbol hsymbol
  next hsymbol =>
  split
  · next hquote => exact .quoted hquote
  next hquote =>
  split
  · next hnumber => exact .number hnumber
  next hnumber =>
  split
  · next hletter => exact .word hline hblank hcomment hsymbol hquote hnumber hletter
  · exact .unexpected

end Scanned

section Kinds

theorem isProper_radixNumber (base : Nat) (radix : String) (isDigit : Char → Bool)
    (rest : List Char) : (radixNumber base radix isDigit rest).kind.IsProper := by
  unfold radixNumber
  dsimp only
  split
  · exact ⟨nofun, nofun, nofun⟩
  · split
    · exact ⟨nofun, fun x hx => by cases hx; exact beq_self_toFloat _, nofun⟩
    · exact ⟨nofun, nofun, nofun⟩

theorem isProper_numberKind (text : List Char) : (decimalNumber.numberKind text).IsProper := by
  unfold decimalNumber.numberKind
  split
  · next h => exact ⟨nofun, fun x hx => by cases hx; exact beq_self_of_readDecimal? h, nofun⟩
  · exact ⟨nofun, nofun, nofun⟩

theorem isProper_decimalNumber (cs : List Char) : (decimalNumber cs).kind.IsProper := by
  unfold decimalNumber
  dsimp only
  split
  · exact isProper_numberKind _
  · split
    · exact ⟨nofun, nofun, nofun⟩
    · exact isProper_numberKind _

theorem isProper_number (c : Char) (rest : List Char) : (number c rest).kind.IsProper := by
  unfold number
  split
  · exact isProper_radixNumber _ _ _ _
  · exact isProper_radixNumber _ _ _ _
  · exact isProper_radixNumber _ _ _ _
  · exact isProper_radixNumber _ _ _ _
  · exact isProper_decimalNumber _

theorem isProper_run (quote : Char) (s : StringScan) (width : Nat) (cs : List Char) :
    (s.run quote width cs).kind.IsProper := by
  induction cs generalizing s width with
  | nil => constructor <;> simp [StringScan.run]
  | cons c rest ih =>
    simp only [StringScan.run]
    split
    · simp only [StringScan.kind]
      split <;> constructor <;> simp
    · exact ih _ _

theorem isProper_symbol? {golf : Bool} {c : Char} {next : Option Char} {l : Lexeme}
    (h : symbol? golf c next = some l) : l.kind.IsProper := by
  unfold symbol? at h
  split at h <;> simp only [Option.some.injEq, reduceCtorEq] at h
  all_goals subst h
  all_goals repeat' split
  all_goals exact ⟨nofun, nofun, nofun⟩

theorem isProper_of_ofWord? {text : String} {k : TokenKind} (h : TokenKind.ofWord? text = some k) :
    k.IsProper := by
  unfold TokenKind.ofWord? at h
  split at h <;> simp only [Option.some.injEq, reduceCtorEq] at h
  all_goals subst h
  all_goals exact ⟨nofun, nofun, nofun⟩

theorem isProper_word (c : Char) (rest : List Char) : (word c rest).kind.IsProper := by
  simp only [word]
  cases h : TokenKind.ofWord? (String.ofList (c :: rest.takeWhile isWordChar)) with
  | none => constructor <;> simp
  | some k => exact isProper_of_ofWord? h

theorem Scanned.isProper {golf : Bool} {c : Char} {rest : List Char} {l : Lexeme}
    (h : Scanned golf c rest l) : l.kind.IsProper := by
  cases h with
  | lineEnd _ => constructor <;> simp
  | blanks _ => constructor <;> simp [blankRun]
  | block _ _ =>
    unfold blockComment
    split <;> constructor <;> simp
  | line _ => constructor <;> simp [lineComment]
  | symbol hsymbol => exact isProper_symbol? hsymbol
  | quoted _ => exact isProper_run _ _ _ _
  | number _ => exact isProper_number _ _
  | word => exact isProper_word _ _
  | unexpected => constructor <;> simp

/-- The lexemes of nonempty texts are proper. -/
theorem isProper_ofChars (golf : Bool) {cs : List Char} (h : cs ≠ []) :
    (ofChars golf cs).kind.IsProper := by
  obtain ⟨c, rest, rfl⟩ := List.exists_cons_of_ne_nil h
  exact (scanned_ofChars golf c rest).isProper

end Kinds

/-! ## Widths -/

section Widths

theorem length_takeWhile_le (p : Char → Bool) (cs : List Char) :
    (cs.takeWhile p).length ≤ cs.length :=
  (List.takeWhile_prefix p).length_le

theorem width_radixNumber_le (base : Nat) (radix : String) (isDigit : Char → Bool)
    (rest : List Char) : (radixNumber base radix isDigit rest).width ≤ rest.length + 2 := by
  have := length_takeWhile_le isDigit rest
  simp only [radixNumber]
  omega

theorem isPrefix_mantissa (cs : List Char) : mantissa cs <+: cs := by
  have hsplit : cs.takeWhile isDecimalDigit ++ cs.dropWhile isDecimalDigit = cs :=
    List.takeWhile_append_dropWhile
  unfold mantissa
  dsimp only
  split
  · next c rest h =>
    split
    · refine ⟨rest.dropWhile isDecimalDigit, ?_⟩
      rw [List.append_assoc, List.cons_append, List.cons_append,
        List.takeWhile_append_dropWhile, ← h, hsplit]
    · exact ⟨_, hsplit⟩
  · exact ⟨_, hsplit⟩

theorem isPrefix_exponentMark (cs : List Char) : exponentMark cs <+: cs := by
  unfold exponentMark
  split
  · split
    · split <;> simp
    · exact List.nil_prefix
  · exact List.nil_prefix

theorem width_decimalNumber_le (cs : List Char) : (decimalNumber cs).width ≤ cs.length := by
  have hm := (isPrefix_mantissa cs).length_le
  have he := (isPrefix_exponentMark (cs.drop (mantissa cs).length)).length_le
  have hd := length_takeWhile_le isDecimalDigit
    ((cs.drop (mantissa cs).length).drop (exponentMark (cs.drop (mantissa cs).length)).length)
  simp only [List.length_drop] at he hd
  unfold decimalNumber
  dsimp only
  split
  · exact hm
  · split
    · dsimp only
      omega
    · dsimp only
      omega

theorem width_number_le (c : Char) (rest : List Char) :
    (number c rest).width ≤ rest.length + 1 := by
  unfold number
  split
  · exact width_radixNumber_le _ _ _ _
  · exact width_radixNumber_le _ _ _ _
  · exact width_radixNumber_le _ _ _ _
  · exact width_radixNumber_le _ _ _ _
  · exact width_decimalNumber_le _

theorem width_run_le (quote : Char) (s : StringScan) (width : Nat) (cs : List Char) :
    (s.run quote width cs).width ≤ width + cs.length := by
  induction cs generalizing s width with
  | nil => exact Nat.le_refl _
  | cons c rest ih =>
    simp only [StringScan.run, List.length_cons]
    split
    · exact Nat.add_le_add_left (Nat.le_add_left 1 _) _
    · exact Nat.le_trans (ih _ _) (by omega)

theorem width_symbol?_le {golf : Bool} {c : Char} {rest : List Char} {l : Lexeme}
    (h : symbol? golf c rest.head? = some l) : l.width ≤ rest.length + 1 := by
  cases rest with
  | nil =>
    -- Symbols of two characters need a second one.
    unfold symbol? at h
    split at h <;> simp at h
    all_goals subst h
    all_goals decide
  | cons d rest =>
    refine Nat.le_trans (m := 2) ?_ (by simp)
    unfold symbol? at h
    split at h <;> simp only [Option.some.injEq, reduceCtorEq] at h
    all_goals subst h
    all_goals repeat' split
    all_goals decide

theorem blockEnd?_le {width n : Nat} {cs : List Char} (h : blockEnd? width cs = some n) :
    n ≤ width + cs.length := by
  fun_induction blockEnd? width cs with
  | case1 => cases h
  | case2 => cases h
  | case3 width rest =>
    cases h
    simp
  | case4 width c rest h1 h2 ih =>
    have := ih h
    simp only [List.length_cons]
    omega

theorem width_blockComment_le (rest : List Char) : (blockComment rest).width ≤ rest.length + 2 := by
  unfold blockComment
  split
  · next h => exact Nat.le_trans (blockEnd?_le h) (by omega)
  · exact Nat.le_of_eq (Nat.add_comm _ _)

theorem Scanned.width_le {golf : Bool} {c : Char} {rest : List Char} {l : Lexeme}
    (h : Scanned golf c rest l) : l.width ≤ rest.length + 1 := by
  cases h with
  | lineEnd _ => exact Nat.le_add_left 1 _
  | blanks _ =>
    have := length_takeWhile_le (fun c => c ≠ '\n' && isBlank c) rest
    simp only [blankRun]
    omega
  | block _ hstar =>
    have hlen : rest.tail.length + 1 = rest.length := by
      cases rest with
      | nil => cases hstar
      | cons d rest => rfl
    exact Nat.le_trans (width_blockComment_le rest.tail) (by omega)
  | line _ =>
    have := length_takeWhile_le (· ≠ '\n') rest
    simp only [lineComment]
    omega
  | symbol hsymbol => exact width_symbol?_le hsymbol
  | quoted _ => exact Nat.le_trans (width_run_le _ _ _ _) (by omega)
  | number _ => exact width_number_le c rest
  | word =>
    have := length_takeWhile_le isWordChar rest
    simp only [Lexeme.word]
    omega
  | unexpected => exact Nat.le_add_left 1 _

/-- A lexeme is part of its text. -/
theorem width_le (golf : Bool) (cs : List Char) : (ofChars golf cs).width ≤ cs.length := by
  cases cs with
  | nil => exact Nat.le_refl 0
  | cons c rest => exact (scanned_ofChars golf c rest).width_le

end Widths

/-! ## Lexemes in front of a break -/

/-- No lexeme but a string or a comment goes on with such a character. -/
def IsBreak (d : Char) : Prop :=
  d = '\n' ∨ d = ',' ∨ d = ')'

section Breaks

variable {d : Char} (hd : IsBreak d) (below : List Char)

include hd

omit hd in
theorem takeWhile_append {p : Char → Bool} (hp : p d = false) (cs : List Char) :
    (cs ++ d :: below).takeWhile p = cs.takeWhile p := by
  induction cs with
  | nil => simp [hp]
  | cons c cs ih => simp [List.takeWhile_cons, ih]

omit hd in
theorem dropWhile_append {p : Char → Bool} (hp : p d = false) (cs : List Char) :
    (cs ++ d :: below).dropWhile p = cs.dropWhile p ++ d :: below := by
  induction cs with
  | nil => simp [hp]
  | cons c cs ih =>
    rw [List.cons_append, List.dropWhile_cons, List.dropWhile_cons, ih]
    split <;> rfl

omit hd in
/-- What a test of the next character says at the end of a text it says in front of a break. -/
theorem head?_append {α : Type} (f : Option Char → α) (h : f (some d) = f none)
    (cs : List Char) : f (cs ++ d :: below).head? = f cs.head? := by
  cases cs with
  | nil => exact h
  | cons c cs => rfl

omit hd in
theorem radixNumber_append {isDigit : Char → Bool} (hdigit : isDigit d = false) (base : Nat)
    (radix : String) (rest : List Char) :
    radixNumber base radix isDigit (rest ++ d :: below) =
      radixNumber base radix isDigit rest := by
  unfold radixNumber
  rw [takeWhile_append below hdigit]

theorem isDecimalDigit_break : isDecimalDigit d = false := by
  rcases hd with rfl | rfl | rfl <;> decide

theorem mantissa_append (cs : List Char) : mantissa (cs ++ d :: below) = mantissa cs := by
  have hdigit := isDecimalDigit_break hd
  unfold mantissa
  rw [takeWhile_append below hdigit, dropWhile_append below hdigit]
  rcases cs.dropWhile isDecimalDigit with _ | ⟨point, _ | ⟨c, rest⟩⟩
  · rcases hd with rfl | rfl | rfl <;> rfl
  · -- A point counts only if a digit follows, and a break is none.
    by_cases hpoint : point = '.'
    · subst hpoint
      simp [hdigit]
    · simp [hpoint]
  · by_cases hpoint : point = '.'
    · subst hpoint
      simp only [List.cons_append, takeWhile_append below hdigit]
    · simp [hpoint]

theorem exponentMark_append (cs : List Char) :
    exponentMark (cs ++ d :: below) = exponentMark cs := by
  rcases cs with _ | ⟨e, _ | ⟨c, rest⟩⟩
  · rcases hd with rfl | rfl | rfl <;> rfl
  · rcases hd with rfl | rfl | rfl <;> rfl
  · by_cases hplus : c = '+'
    · subst hplus
      rfl
    · by_cases hminus : c = '-'
      · subst hminus
        rfl
      · simp [exponentMark, hplus, hminus]

theorem decimalNumber_append (cs : List Char) :
    decimalNumber (cs ++ d :: below) = decimalNumber cs := by
  have hm := (isPrefix_mantissa cs).length_le
  have he := (isPrefix_exponentMark (cs.drop (mantissa cs).length)).length_le
  unfold decimalNumber
  dsimp only
  rw [mantissa_append hd, List.drop_append_of_le_length hm, exponentMark_append hd,
    List.drop_append_of_le_length he, takeWhile_append below (isDecimalDigit_break hd)]

theorem number_append (c : Char) (rest : List Char) :
    number c (rest ++ d :: below) = number c rest := by
  have hdecimal := decimalNumber_append hd below (c :: rest)
  rw [List.cons_append] at hdecimal
  by_cases hc : c = '0'
  · subst hc
    rcases rest with _ | ⟨x, rest⟩
    · rcases hd with rfl | rfl | rfl
      · exact hdecimal
      · exact hdecimal
      · exact hdecimal
    · -- Only behind a zero a letter can say the radix.
      by_cases hx : x = 'x' ∨ x = 'X'
      · have hhex : isHexDigit d = false := by rcases hd with rfl | rfl | rfl <;> decide
        rcases hx with rfl | rfl
        · exact radixNumber_append below hhex 16 "hex" rest
        · exact radixNumber_append below hhex 16 "hex" rest
      · by_cases hb : x = 'b' ∨ x = 'B'
        · have hbinary : isBinaryDigit d = false := by rcases hd with rfl | rfl | rfl <;> decide
          rcases hb with rfl | rfl
          · exact radixNumber_append below hbinary 2 "binary" rest
          · exact radixNumber_append below hbinary 2 "binary" rest
        · rw [not_or] at hx hb
          simpa [number, hx, hb] using hdecimal
  · simpa [number, hc] using hdecimal

omit hd in
theorem run_append {quote : Char} {s : StringScan} {width : Nat} {cs : List Char}
    (h : ¬ (s.run quote width cs).kind.IsOpen) :
    s.run quote width (cs ++ d :: below) = s.run quote width cs := by
  induction cs generalizing s width with
  | nil => exact absurd (.inl rfl) h
  | cons c rest ih =>
    simp only [StringScan.run, List.cons_append] at h ⊢
    split
    · rfl
    · next hs =>
      rw [if_neg hs] at h
      exact ih h

theorem symbol?_break (golf : Bool) (c : Char) :
    symbol? golf c (some d) = symbol? golf c none := by
  unfold symbol?
  rcases hd with rfl | rfl | rfl
  · split <;> simp
  · split <;> simp
  · split <;> simp

theorem word_append (c : Char) (rest : List Char) :
    word c (rest ++ d :: below) = word c rest := by
  have hword : isWordChar d = false := by rcases hd with rfl | rfl | rfl <;> decide
  unfold word
  rw [takeWhile_append below hword]

theorem significant_append {golf : Bool} {c : Char} {rest : List Char}
    (h : ¬ (significant golf c rest).kind.IsOpen) :
    significant golf c (rest ++ d :: below) = significant golf c rest := by
  unfold significant at h ⊢
  rw [head?_append below (symbol? golf c) (symbol?_break hd golf c),
    head?_append below (startsNumber c) (by simp [startsNumber, isDecimalDigit_break hd])]
  split
  · rfl
  · next hs =>
    rw [hs] at h
    dsimp only at h
    split
    · next hq =>
      rw [if_pos hq] at h
      exact run_append below h
    · rw [number_append hd, word_append hd]

omit hd in
theorem blockEnd?_append {width n : Nat} {cs : List Char} (h : blockEnd? width cs = some n)
    (more : List Char) : blockEnd? width (cs ++ more) = some n := by
  fun_induction blockEnd? width cs with
  | case1 => cases h
  | case2 => cases h
  | case3 width rest => exact h
  | case4 width c rest hne hstar ih =>
    rw [List.cons_append, blockEnd?]
    · exact ih h
    · -- A comment that ends in the text has its last two characters there.
      rcases rest with _ | ⟨x, rest⟩
      · exact absurd rfl hne
      · nofun
    · rcases rest with _ | ⟨x, rest⟩
      · exact absurd rfl hne
      · intro rest' hc heq
        cases heq
        exact hstar _ hc rfl

omit hd in
theorem blockComment_append {rest : List Char} (h : ¬ (blockComment rest).kind.IsOpen) :
    blockComment (rest ++ d :: below) = blockComment rest := by
  unfold blockComment at h ⊢
  cases hend : blockEnd? 2 rest with
  | none =>
    rw [hend] at h
    exact absurd (.inr rfl) h
  | some width => rw [blockEnd?_append hend]

omit hd in
/-- Only the end of a line ends a comment that has no end of its own. -/
theorem lineComment_append {rest : List Char}
    (h : d ≠ '\n' → (lineComment rest).kind ≠ .comment) :
    lineComment (rest ++ d :: below) = lineComment rest := by
  obtain rfl : d = '\n' := Decidable.byContradiction fun hne => h hne rfl
  unfold lineComment
  rw [takeWhile_append below rfl]

/-- A lexeme does not depend on what stands behind a break, unless it is open at the end of its
text, or a comment and the break is not the end of the line. -/
theorem ofChars_append {golf : Bool} {cs : List Char} (hne : cs ≠ [])
    (h : ¬ (ofChars golf cs).kind.IsOpen)
    (hcomment : d ≠ '\n' → (ofChars golf cs).kind ≠ .comment) :
    ofChars golf (cs ++ d :: below) = ofChars golf cs := by
  cases cs with
  | nil => exact absurd rfl hne
  | cons c rest =>
    rw [List.cons_append]
    rw [ofChars] at h hcomment ⊢
    rw [ofChars]
    split
    · rfl
    · next hc =>
      rw [if_neg hc] at h hcomment
      split
      · have hblank : (d ≠ '\n' && isBlank d) = false := by
          rcases hd with rfl | rfl | rfl <;> decide
        simp only [blankRun, takeWhile_append below (p := fun c => c ≠ '\n' && isBlank c) hblank]
      · next hb =>
        have hstarts : startsComment c (some d) = startsComment c none := by
          rcases hd with rfl | rfl | rfl <;> simp [startsComment]
        have hstar : (some d = some '*') = (none = some '*') := by
          rcases hd with rfl | rfl | rfl <;> simp
        rw [if_neg hb] at h hcomment
        rw [head?_append below (startsComment c) hstarts]
        split
        · next hs =>
          rw [if_pos hs] at h hcomment
          simp only [head?_append below (fun next => next = some '*') hstar]
          split
          · next hopen =>
            rw [if_pos hopen] at h
            rcases rest with _ | ⟨x, rest⟩
            · simp at hopen
            · exact blockComment_append below h
          · next hopen =>
            rw [if_neg hopen] at hcomment
            exact lineComment_append below hcomment
        · next hs =>
          rw [if_neg hs] at h
          exact significant_append hd below h

end Breaks

end Lexeme

end Rulebook
