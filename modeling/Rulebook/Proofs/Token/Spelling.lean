import Rulebook.Proofs.Token.Scan

/-!
# Texts that are read as written

Texts of tokens can be put one behind the other if what follows each does not continue it: behind a
word there is no further character of a word, behind `!` no `=`, behind `-` no `>`.

## Main definitions

* `Cursor.Spells`: a text is read as some tokens, whatever follows it
* `Cursor.Before`: what follows a text begins with a character of some sort, or there is nothing

## Main results

* `Cursor.Spells.append`: texts one behind the other
* `Cursor.spells_word`, `Cursor.spells_name`: words and names
* `tokenize_of_spells`: the tokens of a whole source
-/

namespace Rulebook

/-! ## Words -/

namespace Lexeme

section Words

variable {name : String}

theorem radixNumber_ne_identifier (base : Nat) (radix : String) (isDigit : Char → Bool)
    (rest : List Char) : (radixNumber base radix isDigit rest).kind ≠ .identifier name := by
  unfold radixNumber
  dsimp only
  split
  · simp
  · split <;> simp

theorem decimalNumber_ne_identifier (cs : List Char) :
    (decimalNumber cs).kind ≠ .identifier name := by
  have hkind (text : List Char) : decimalNumber.numberKind text ≠ .identifier name := by
    unfold decimalNumber.numberKind
    split <;> simp
  unfold decimalNumber
  dsimp only
  split
  · exact hkind _
  · split
    · simp
    · exact hkind _

theorem number_ne_identifier (c : Char) (rest : List Char) :
    (number c rest).kind ≠ .identifier name := by
  unfold number
  split
  · exact radixNumber_ne_identifier _ _ _ _
  · exact radixNumber_ne_identifier _ _ _ _
  · exact radixNumber_ne_identifier _ _ _ _
  · exact radixNumber_ne_identifier _ _ _ _
  · exact decimalNumber_ne_identifier _

theorem run_ne_identifier (quote : Char) (s : StringScan) (width : Nat) (cs : List Char) :
    (s.run quote width cs).kind ≠ .identifier name := by
  induction cs generalizing s width with
  | nil => simp [StringScan.run]
  | cons c rest ih =>
    simp only [StringScan.run]
    split
    · simp only [StringScan.kind]
      split <;> simp
    · exact ih _ _

theorem symbol?_ne_identifier {golf : Bool} {c : Char} {next : Option Char} {l : Lexeme}
    (h : symbol? golf c next = some l) : l.kind ≠ .identifier name := by
  unfold symbol? at h
  split at h <;> simp only [Option.some.injEq, reduceCtorEq] at h
  all_goals subst h
  all_goals repeat' split
  all_goals simp

/-- Whether a symbol stands at the front depends on its first character. -/
theorem isSome_symbol? (golf : Bool) (c : Char) (next next' : Option Char) :
    (symbol? golf c next).isSome = (symbol? golf c next').isSome := by
  unfold symbol?
  split <;> rfl

/-- Words begin with a character, whatever follows it. -/
def StartsWord (c : Char) : Prop :=
  isBlank c = false ∧ ∀ rest, ofChars false (c :: rest) = word c rest

/-- A letter that is no blank, quote or digit and belongs to no symbol. None of these questions
depends on what follows. -/
theorem startsWord_of_letter {c : Char} (hletter : (isLetter c || c == '_') = true)
    (hline : c ≠ '\n') (hblank : ¬isBlank c = true) (hhash : c ≠ '#')
    (hsymbol : symbol? false c none = none) (hquote : ¬(c = '"' ∨ c = '\''))
    (hdigit : isDecimalDigit c = false) : StartsWord c := by
  have hslash : c ≠ '/' := by
    rintro rfl
    cases hsymbol
  have hpoint : c ≠ '.' := by
    rintro rfl
    exact absurd hletter (by decide)
  refine ⟨Bool.eq_false_iff.2 hblank, fun rest => ?_⟩
  have hnone : symbol? false c rest.head? = none := by
    refine Option.not_isSome_iff_eq_none.1 ?_
    rw [isSome_symbol? false c _ none, hsymbol]
    exact Bool.false_ne_true
  have hcomment : ¬startsComment c rest.head? = true := by simp [startsComment, hhash, hslash]
  have hnumber : ¬startsNumber c rest.head? = true := by simp [startsNumber, hdigit, hpoint]
  rw [ofChars, if_neg hline, if_neg hblank, if_neg hcomment, significant, hnone]
  dsimp only
  rw [if_neg hquote, if_neg hnumber, if_pos hletter]

theorem Scanned.startsWord {c : Char} {rest : List Char} {l : Lexeme}
    (hscan : Scanned false c rest l) (h : l.kind = .identifier name) : StartsWord c := by
  cases hscan with
  | lineEnd _ => cases h
  | blanks _ => cases h
  | block _ _ =>
    unfold blockComment at h
    split at h <;> cases h
  | line _ => cases h
  | symbol hsymbol => exact absurd h (symbol?_ne_identifier hsymbol)
  | quoted _ => exact absurd h (run_ne_identifier _ _ _ _)
  | number _ => exact absurd h (number_ne_identifier _ _)
  | word hline hblank hcomment hsymbol hquote hnumber hletter =>
    have hhash : c ≠ '#' := by
      rintro rfl
      exact hcomment rfl
    have hnone : symbol? false c none = none := by
      refine Option.not_isSome_iff_eq_none.1 ?_
      rw [isSome_symbol? false c _ rest.head?, hsymbol]
      exact Bool.false_ne_true
    have hdigit : isDecimalDigit c = false := by
      rw [startsNumber, Bool.or_eq_true, not_or] at hnumber
      exact Bool.eq_false_iff.2 hnumber.1
    exact startsWord_of_letter hletter hline hblank hhash hnone hquote hdigit
  | unexpected => cases h

/-- Only words are names. -/
theorem startsWord_of_kind {c : Char} {rest : List Char}
    (h : (ofChars false (c :: rest)).kind = .identifier name) : StartsWord c :=
  (scanned_ofChars false c rest).startsWord h

end Words

end Lexeme

/-! ## Texts and their tokens -/

namespace Cursor

section Spells

variable {F G : List Char → Prop} {cs ds : List Char} {kinds kinds' : List TokenKind}
  {kind : TokenKind}

/-- What follows a text begins with a character of some sort, or there is nothing. -/
def Before (p : Char → Prop) (rest : List Char) : Prop :=
  ∀ c ∈ rest.head?, p c

/-- In front of what is described by `F`, a text is read as some tokens, blanks left out. -/
structure Spells (F : List Char → Prop) (cs : List Char) (kinds : List TokenKind) : Prop where
  significant : ∀ k ∈ kinds, k.isSignificant = true
  scan : ∀ p rest, F rest → ∃ ts,
    scanAll false ⟨p, cs ++ rest⟩ = ts ++ scanAll false ⟨p.afterAll cs, rest⟩ ∧
      (kept {} ts).map Token.kind = kinds

theorem before_nil (p : Char → Prop) : Before p [] := by
  rintro _ ⟨⟩

theorem before_append {p : Char → Prop} {c : Char} (hc : p c) (cs rest : List Char) :
    Before p (c :: cs ++ rest) := by
  rintro _ ⟨⟩
  exact hc

theorem Spells.append (h : Spells F cs kinds) (h' : Spells G ds kinds')
    (hF : ∀ rest, G rest → F (ds ++ rest)) : Spells G (cs ++ ds) (kinds ++ kinds') := by
  refine ⟨List.forall_mem_append.2 ⟨h.significant, h'.significant⟩, fun p rest hrest => ?_⟩
  obtain ⟨ts, hts, hkinds⟩ := h.scan p (ds ++ rest) (hF rest hrest)
  obtain ⟨us, hus, hkinds'⟩ := h'.scan (p.afterAll cs) rest hrest
  refine ⟨ts ++ us, ?_, ?_⟩
  · rw [List.append_assoc, hts, hus, Place.afterAll_append, List.append_assoc]
  · rw [kept_append, List.map_append, hkinds, hkinds']

theorem not_skips_of_isSignificant (s : ScanSettings) (h : kind.isSignificant = true) :
    s.skips kind = false := by
  cases kind <;> first | rfl | cases h

/-- A lexeme at the front of a text. -/
theorem scanAll_lexeme {golf : Bool} (p : Place) {rest : List Char} (hkind : kind ≠ .eof)
    (h : Lexeme.ofChars golf (cs ++ rest) = ⟨kind, cs.length⟩) :
    ∃ t : Token, t.kind = kind ∧
      scanAll golf ⟨p, cs ++ rest⟩ = t :: scanAll golf ⟨p.afterAll cs, rest⟩ := by
  have htoken : (token ⟨p, cs ++ rest⟩ golf).kind = kind := by
    rw [token, lexeme, h]
  have hpast : past ⟨p, cs ++ rest⟩ golf = ⟨p.afterAll cs, rest⟩ := by
    rw [past, lexeme, h]
    dsimp only
    rw [List.take_left, List.drop_left]
  refine ⟨_, htoken, ?_⟩
  rw [scanAll_of_ne (htoken ▸ hkind), hpast]

theorem spells_lexeme (hkind : kind ≠ .eof) (hsig : kind.isSignificant = true)
    (h : ∀ rest, F rest → Lexeme.ofChars false (cs ++ rest) = ⟨kind, cs.length⟩) :
    Spells F cs [kind] := by
  refine ⟨List.forall_mem_singleton.2 hsig, fun p rest hrest => ?_⟩
  obtain ⟨t, rfl, hscan⟩ := scanAll_lexeme p hkind (h rest hrest)
  refine ⟨[t], hscan, ?_⟩
  rw [kept, List.filter_cons, not_skips_of_isSignificant {} hsig]
  rfl

/-- A blank in front of something else. -/
theorem spells_blank : Spells (Before (isBlank · = false)) [' '] [] := by
  refine ⟨List.forall_mem_nil _, fun p rest hrest => ?_⟩
  have hlexeme : Lexeme.ofChars false ([' '] ++ rest) = ⟨.blanks, 1⟩ := by
    show Lexeme.blankRun rest = _
    rw [Lexeme.blankRun]
    cases rest with
    | nil => rfl
    | cons c rest =>
      have hc : isBlank c = false := hrest c rfl
      rw [List.takeWhile_cons, hc, Bool.and_false]
      rfl
  obtain ⟨t, hkind, hscan⟩ := scanAll_lexeme p (by simp) hlexeme
  refine ⟨[t], hscan, ?_⟩
  rw [kept, List.filter_cons, hkind]
  rfl

theorem spells_word {c : Char} {tail : List Char} (hc : Lexeme.StartsWord c)
    (htail : ∀ d ∈ tail, Lexeme.isWordChar d = true)
    (hkind : (TokenKind.ofWord? (String.ofList (c :: tail))).getD
      (.identifier (String.ofList (c :: tail))) = kind)
    (hsig : kind.isSignificant = true) (heof : kind ≠ .eof) :
    Spells (Before (Lexeme.isWordChar · = false)) (c :: tail) [kind] := by
  refine spells_lexeme heof hsig fun rest hrest => ?_
  have htakeWhile : (tail ++ rest).takeWhile Lexeme.isWordChar = tail := by
    rw [List.takeWhile_append_of_pos htail]
    cases rest with
    | nil => rw [List.takeWhile_nil, List.append_nil]
    | cons d rest =>
      have hd : Lexeme.isWordChar d = false := hrest d rfl
      rw [List.takeWhile_cons, hd]
      simp
  rw [List.cons_append, hc.2, Lexeme.word, htakeWhile, hkind, List.length_cons, Nat.add_comm]

end Spells

/-! ## Names -/

section Names

variable {name : String}

theorem ofWord?_ne_identifier (text : String) :
    TokenKind.ofWord? text ≠ some (.identifier name) := by
  intro h
  unfold TokenKind.ofWord? at h
  split at h <;> cases h

/-- A name that a word is, is the word. -/
theorem eq_of_word {text : String}
    (h : (TokenKind.ofWord? text).getD (.identifier text) = .identifier name) : text = name := by
  cases hword : TokenKind.ofWord? text with
  | none =>
    rw [hword] at h
    exact TokenKind.identifier.inj h
  | some kind =>
    rw [hword] at h
    exact absurd (hword.trans (congrArg some h)) (ofWord?_ne_identifier text)

/-- A name at the front of a text is a part of it. -/
theorem exists_word_of_kind {c : Cursor} (h : (c.token false).kind = .identifier name) :
    ∃ d rest, c.rest = d :: rest ∧ Lexeme.StartsWord d ∧
      name.toList = d :: rest.takeWhile Lexeme.isWordChar := by
  obtain ⟨place, cs⟩ := c
  cases cs with
  | nil => cases h
  | cons d rest =>
    have hstart : Lexeme.StartsWord d := Lexeme.startsWord_of_kind h
    refine ⟨d, rest, rfl, hstart, ?_⟩
    rw [token, lexeme, hstart.2, Lexeme.word] at h
    rw [← eq_of_word h, String.toList_ofList]

theorem length_name_le {c : Cursor} (h : (c.token false).kind = .identifier name) :
    name.toList.length ≤ c.rest.length := by
  obtain ⟨d, rest, hrest, -, hname⟩ := exists_word_of_kind h
  rw [hrest, hname, List.length_cons, List.length_cons]
  exact Nat.succ_le_succ (Lexeme.length_takeWhile_le _ rest)

/-- A name that comes next is at the front of the text, or is shorter than the text. -/
theorem kind_token_of_next {c : Cursor} (h : (c.next {}).1.kind = .identifier name) :
    (c.token false).kind = .identifier name ∨ name.toList.length < c.rest.length := by
  generalize hs : ({} : ScanSettings) = s at h
  fun_induction next c s with
  | case1 c hskips ih =>
    subst hs
    have hlt : (c.past false).rest.length < c.rest.length :=
      length_rest_past_lt (rest_ne_nil_of_kind_ne (kind_ne_eof_of_skips hskips))
    have hle : name.toList.length ≤ (c.past false).rest.length :=
      (ih h).elim length_name_le Nat.le_of_lt
    exact .inr (Nat.lt_of_le_of_lt hle hlt)
  | case2 c hskips =>
    subst hs
    exact .inl h

/-- A name that is a whole source is read as this name elsewhere too. -/
theorem spells_name (h : (tokenize {} name).1.map Token.kind = [.identifier name, .eof]) :
    (∃ c tail, name.toList = c :: tail ∧ Lexeme.StartsWord c) ∧
      Spells (Before (Lexeme.isWordChar · = false)) name.toList [.identifier name] := by
  have hnext : (next ⟨{}, name.toList⟩ {}).1.kind = .identifier name := by
    rw [tokenize_eq] at h
    have hkept := kept_scanAll {} ⟨{}, name.toList⟩
    rw [hkept, List.map_cons] at h
    exact (List.cons.inj h).1
  -- Nothing is skipped in front of it, since it is as long as the whole source.
  have hkind : (token ⟨{}, name.toList⟩ false).kind = .identifier name :=
    (kind_token_of_next hnext).resolve_right (Nat.lt_irrefl _)
  obtain ⟨c, tail, hrest, hc, hname⟩ := exists_word_of_kind hkind
  have htail : tail = tail.takeWhile Lexeme.isWordChar :=
    (List.cons.inj (Eq.trans hrest.symm hname)).2
  have hword : ∀ d ∈ tail, Lexeme.isWordChar d = true := by
    rw [htail]
    exact List.all_eq_true.1 List.all_takeWhile
  have hself : (Lexeme.word c tail).kind = .identifier name := by
    rw [← hc.2, ← hrest]
    exact hkind
  rw [Lexeme.word, ← htail] at hself
  dsimp only at hrest
  rw [hrest]
  exact ⟨⟨c, tail, rfl, hc⟩, spells_word hc hword hself rfl (by simp)⟩

end Names

end Cursor

/-! ## Sources -/

section Sources

variable {source : String} {kinds : List TokenKind} {F : List Char → Prop}

/-- The tokens of a source whose text is read as they say. -/
theorem tokenize_of_spells (h : Cursor.Spells F source.toList kinds) (hF : F []) :
    (tokenize {} source).1.map Token.kind = kinds ++ [.eof] ∧ (tokenize {} source).2 = [] := by
  obtain ⟨ts, hts, rfl⟩ := h.scan {} [] hF
  have hend : Cursor.scanAll false ⟨({} : Place).afterAll source.toList, []⟩ =
      [Cursor.token ⟨({} : Place).afterAll source.toList, []⟩ false] :=
    Cursor.scanAll_of_eq rfl
  rw [List.append_nil, hend] at hts
  rw [tokenize_eq, hts, Cursor.kept_concat {} ts rfl, List.map_append]
  refine ⟨rfl, List.filterMap_eq_nil_iff.2 fun t ht => ?_⟩
  rcases List.mem_append.1 ht with hmem | hmem
  -- Tokens that are left out are no errors, and those that are kept are significant.
  · by_cases hskips : ScanSettings.skips {} t.kind = true
    · exact Cursor.error?_of_skips hskips
    · have hkept : t ∈ Cursor.kept {} ts := List.mem_filter.2 ⟨hmem, by simp [hskips]⟩
      have hsig := h.significant _ (List.mem_map_of_mem hkept)
      unfold Token.error?
      split
      · next fault hfault =>
        rw [hfault] at hsig
        cases hsig
      · rfl
  · rw [List.mem_singleton.1 hmem]
    rfl

end Sources

end Rulebook
