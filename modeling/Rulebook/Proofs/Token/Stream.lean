import Rulebook.Proofs.Token.Scan

/-!
# What a stream hands out

A stream reads its source on demand, and ahead of its turn where a token is looked at. That cannot
be told from what it hands out: the tokens that are taken come in the order of the source, however
many were looked at before their turn. Only the errors are noted as soon as a token is read.

Tokens that are left out leave no trace either. What remains is the same as if they had been taken
out of a whole list of tokens.

## Main definitions

* `Cursor.nth`: the tokens of a text by their numbers, the end token again and again
* `TokenStream.Request`: taking a token, looking ahead, and reading a token anew
* `TokenStream.Session`: a stream, with the tokens taken from it so far
* `TokenStream.Ready`: how far a stream has been read, in numbers of tokens

## Main results

* `tokenize_skips`: leaving trivia out is filtering
* `TokenStream.Ready.answer`: each request finds the stream ready, and leaves it so
* `TokenStream.Session.play_takes`: looking ahead cannot be told from what is taken
-/

namespace Rulebook

/-! ## Tokens that are left out -/

section Skipped

/-- No errors are left out. -/
theorem Cursor.errors_kept (s : ScanSettings) (tokens : List Token) :
    (kept s tokens).filterMap Token.error? = tokens.filterMap Token.error? := by
  rw [kept, List.filterMap_filter]
  refine List.filterMap_congr fun t _ => ?_
  cases hskips : s.skips t.kind with
  | true => exact (error?_of_skips hskips).symm
  | false => rfl

/-- The errors of a source are those of the tokens that a parse gets. -/
theorem errors_tokenize (s : ScanSettings) (source : String) :
    (tokenize s source).2 = (tokenize s source).1.filterMap Token.error? := by
  rw [tokenize_eq, Cursor.errors_kept]

/-- The end is no error. -/
theorem errors_of_eq_concat {s : ScanSettings} {source : String} {front : List Token}
    {last : Token} (h : (tokenize s source).1 = front ++ [last]) (hlast : last.kind = .eof) :
    (tokenize s source).2 = front.filterMap Token.error? := by
  have hnone : last.error? = none := by rw [Token.error?, hlast]
  rw [errors_tokenize, h, List.filterMap_append, List.filterMap_cons, hnone]
  exact List.append_nil _

/-- If neither blanks nor comments are skipped, all tokens are kept. -/
theorem Cursor.kept_whole (golf : Bool) (tokens : List Token) :
    kept { golf, skipBlanks := false, skipComments := false } tokens = tokens := by
  refine List.filter_eq_self.2 fun t _ => ?_
  cases t.kind <;> rfl

/-- **Leaving trivia out is filtering.** The tokens of a source without blanks and line ends,
without comments, or without either, are those of all tokens that are something else, as they stand
among them. The errors are the same. -/
theorem tokenize_skips (golf skipBlanks skipComments : Bool) (source : String) :
    let whole : ScanSettings := { golf, skipBlanks := false, skipComments := false }
    tokenize { golf, skipBlanks, skipComments } source =
      ((tokenize whole source).1.filter fun t =>
        !(skipBlanks && (t.kind == .blanks || t.kind == .lineEnd)) &&
          !(skipComments && t.kind == .comment), (tokenize whole source).2) := by
  intro whole
  simp only [whole, tokenize_eq, Cursor.kept_whole]
  refine Prod.ext (List.filter_congr fun t _ => ?_) rfl
  -- Blanks and line ends are left out for one reason, comments for the other.
  cases hkind : t.kind <;> simp [ScanSettings.skips]

end Skipped

/-! ## Tokens by their numbers -/

namespace Cursor

section Numbers

variable {c : Cursor} {s : ScanSettings}

/-- The cursor behind a number of tokens that are not skipped. -/
def behind (c : Cursor) (s : ScanSettings) : Nat → Cursor
  | 0 => c
  | n + 1 => ((c.behind s n).next s).2

/-- The tokens that are not skipped, by their numbers. Behind the last one it comes again. -/
def nth (c : Cursor) (s : ScanSettings) (n : Nat) : Token :=
  ((c.behind s n).next s).1

theorem behind_succ (c : Cursor) (s : ScanSettings) (n : Nat) :
    c.behind s (n + 1) = (c.next s).2.behind s n := by
  induction n with
  | zero => rfl
  | succ n ih => rw [behind, ih, behind]

theorem nth_succ (c : Cursor) (s : ScanSettings) (n : Nat) :
    c.nth s (n + 1) = (c.next s).2.nth s n := by
  rw [nth, behind_succ, nth]

/-- Behind the end the cursor stays. -/
theorem next_next_of_eof (h : (c.next s).1.kind = .eof) : (c.next s).2.next s = c.next s := by
  fun_induction next c s with
  | case1 c _ ih => exact ih h
  | case2 c hskips =>
    obtain ⟨place, rest⟩ := c
    have hrest : rest = [] := by
      by_contra hne
      exact (isProper_token hne).ne_eof h
    subst hrest
    exact next.eq_def _ _ |>.trans (if_neg hskips)

theorem nth_of_eof (h : (c.next s).1.kind = .eof) (n : Nat) : c.nth s n = (c.next s).1 := by
  have hnext : (c.behind s n).next s = c.next s := by
    induction n with
    | zero => rfl
    | succ n ih => rw [behind, ih, next_next_of_eof h]
  rw [nth, hnext]

/-- The tokens by their numbers are those of a list, and the last one from then on. -/
theorem nth_eq_getD {front : List Token} {last : Token}
    (hall : kept s (c.scanAll s.golf) = front ++ [last]) (hlast : last.kind = .eof)
    (hfront : ∀ t ∈ front, t.kind ≠ .eof) (n : Nat) : c.nth s n = front[n]?.getD last := by
  rw [kept_scanAll] at hall
  induction front generalizing c n with
  | nil =>
    obtain ⟨hhead, -⟩ := List.cons.inj hall
    rw [nth_of_eof (by rw [hhead, hlast]), hhead]
    rfl
  | cons t front ih =>
    obtain ⟨hhead, htail⟩ := List.cons.inj hall
    obtain ⟨ht, hfront⟩ := List.forall_mem_cons.1 hfront
    rw [hhead, if_neg ht, kept_scanAll] at htail
    cases n with
    | zero => exact hhead
    | succ n => exact (nth_succ c s n).trans (ih htail hfront n)

/-- Each token but the last one takes a character at least. -/
theorem length_le_behind {front : List Token} {last : Token}
    (hall : kept s (c.scanAll s.golf) = front ++ [last])
    (hfront : ∀ t ∈ front, t.kind ≠ .eof) (n : Nat) :
    front.length ≤ n + (c.behind s n).rest.length := by
  rw [kept_scanAll] at hall
  induction front generalizing c n with
  | nil => exact Nat.zero_le _
  | cons t front ih =>
    obtain ⟨hhead, htail⟩ := List.cons.inj hall
    obtain ⟨ht, hfront⟩ := List.forall_mem_cons.1 hfront
    rw [hhead, if_neg ht, kept_scanAll] at htail
    cases n with
    | zero =>
      have hshorter := length_rest_next_lt (hhead ▸ ht)
      have hbehind := ih htail hfront 0
      rw [behind, Nat.zero_add] at hbehind ⊢
      exact Nat.succ_le_of_lt (Nat.lt_of_le_of_lt hbehind hshorter)
    | succ n =>
      rw [behind_succ, List.length_cons]
      have hbehind := ih htail hfront n
      omega

/-- The errors of the first tokens, counted by their numbers. -/
theorem errors_range {front : List Token} {last : Token} (hlast : last.error? = none) (n : Nat) :
    (List.range n).filterMap (fun i => (front[i]?.getD last).error?) =
      (front.take n).filterMap Token.error? := by
  induction n with
  | zero => rfl
  | succ n ih =>
    rw [List.range_succ, List.filterMap_append, ih, List.take_add_one, List.filterMap_append]
    cases h : front[n]? with
    | none => simp [h, hlast]
    | some t => simp [List.filterMap_cons, h]

end Numbers

/-- The tokens of a source by their numbers, and behind the last one that one again. No more of them
are left than there are characters, but for the last one. -/
theorem exists_nth (s : ScanSettings) (source : String) :
    ∃ front last, (tokenize s source).1 = front ++ [last] ∧ last.kind = .eof ∧
      (∀ t ∈ front, t.kind ≠ .eof) ∧
      (∀ n, nth ⟨{}, source.toList⟩ s n = front[n]?.getD last) ∧
      ∀ n, front.length ≤ n + (behind ⟨{}, source.toList⟩ s n).rest.length := by
  obtain ⟨front, last, htokens, hlast, hproper⟩ := exists_tokenize s source
  have hfront : ∀ t ∈ front, t.kind ≠ .eof := fun t ht => (hproper t ht).ne_eof
  have hall : kept s (scanAll s.golf ⟨{}, source.toList⟩) = front ++ [last] := by
    rw [← htokens, tokenize_eq]
  exact ⟨front, last, htokens, hlast, hfront, nth_eq_getD hall hlast hfront,
    length_le_behind hall hfront⟩

end Cursor

/-! ## Sessions -/

namespace TokenStream

section Sessions

/-- Where a condition is read, tokens stay what they are. -/
theorem inContext_condition (golf : Bool) (t : Token) : t.inContext golf .condition = t := by
  obtain ⟨kind, text, span, line, column⟩ := t
  cases kind <;> simp [Token.inContext, TokenKind.inContext]

/-- What can be asked of a stream. -/
inductive Request where
  | next
  /-- The next token, read in a context. -/
  | nextIn (context : ReadContext)
  | peek (k : Nat)
  /-- A token that was handed out before, read anew in a context. -/
  | reread (t : Token) (context : ReadContext)

/-- The context in which a token is taken, if one is. -/
def Request.context? : Request → Option ReadContext
  | next => some .condition
  | nextIn context => some context
  | peek _ | reread _ _ => none

/-- The token that is handed out, and the stream behind that. -/
def answer (s : TokenStream) : Request → Token × TokenStream
  | .next => s.next
  | .nextIn context => s.nextIn context
  | .peek k => s.peek k
  | .reread t context => (t.inContext s.settings.golf context, s)

/-- A stream, and the tokens that were taken from it, as they were handed out. -/
structure Session where
  stream : TokenStream
  taken : List Token := []

namespace Session

/-- One request. -/
def act (s : Session) (request : Request) : Session :=
  let (t, stream) := s.stream.answer request
  ⟨stream, s.taken ++ (request.context?.map fun _ => t).toList⟩

/-- Requests one after the other. -/
def play (s : Session) (requests : List Request) : Session :=
  requests.foldl act s

end Session

end Sessions

/-! ## Streams in numbers -/

section Ready

variable {scan : ScanSettings} {c : Cursor} {n : Nat} {s : TokenStream}

/-- A stream of the text at a cursor hands out the `n`-th token next. The tokens that were scanned
but not taken are those that follow it, and the errors are those of all tokens that were scanned. -/
structure Ready (scan : ScanSettings) (c : Cursor) (n : Nat) (s : TokenStream) : Prop where
  settings : s.settings = scan
  cursor : s.cursor = c.behind scan (n + s.ahead.length)
  ahead : s.ahead = (List.range' n s.ahead.length).map (c.nth scan)
  errors : s.errors.toList =
    (List.range (n + s.ahead.length)).filterMap fun i => (c.nth scan i).error?
  limit : s.ahead.length ≤ lookaheadLimit

theorem ready_ofSource (scan : ScanSettings) (source : String) :
    (ofSource scan source).Ready scan ⟨{}, source.toList⟩ 0 :=
  ⟨rfl, rfl, rfl, rfl, Nat.zero_le _⟩

/-- A scan reads the token behind those that were scanned before. -/
theorem Ready.scan_eq (h : s.Ready scan c n) :
    s.scan.1 = c.nth scan (n + s.ahead.length) ∧ s.scan.2.settings = scan ∧
      s.scan.2.cursor = c.behind scan (n + s.ahead.length + 1) ∧
      s.scan.2.ahead = s.ahead ∧
      s.scan.2.errors.toList =
        (List.range (n + s.ahead.length + 1)).filterMap fun i => (c.nth scan i).error? := by
  have htoken : s.scan.1 = c.nth scan (n + s.ahead.length) := by
    rw [TokenStream.scan, h.cursor, h.settings, Cursor.nth]
  have hnoted : s.scan.2.errors.toList = s.errors.toList ++ s.scan.1.error?.toList := by
    simp only [TokenStream.scan]
    cases (s.cursor.next s.settings).1.error? <;> simp
  refine ⟨htoken, h.settings, ?_, rfl, ?_⟩
  · rw [TokenStream.scan, h.cursor, h.settings, Cursor.behind]
  · rw [hnoted, h.errors, htoken, List.range_succ, List.filterMap_append]
    congr 1

theorem Ready.next (h : s.Ready scan c n) :
    s.next.1 = c.nth scan n ∧ s.next.2.Ready scan c (n + 1) := by
  cases hs : s.ahead with
  | nil =>
    have hnext : s.next = s.scan := by rw [TokenStream.next, hs]
    obtain ⟨htoken, hsettings, hcursor, hahead, herrors⟩ := h.scan_eq
    rw [hs] at htoken hcursor hahead herrors
    rw [hnext]
    refine ⟨htoken, hsettings, ?_, ?_, ?_, ?_⟩
    · rw [hahead, hcursor]
      rfl
    · rw [hahead]
      rfl
    · rw [hahead, herrors]
      rfl
    · rw [hahead]
      exact Nat.zero_le _
  | cons t ahead =>
    have hnext : s.next = (t, { s with ahead }) := by rw [TokenStream.next, hs]
    obtain ⟨hsettings, hcursor, hahead, herrors, hlimit⟩ := h
    rw [hs, List.length_cons] at hcursor hahead herrors hlimit
    rw [List.range'_succ, List.map_cons] at hahead
    obtain ⟨hhead, htail⟩ := List.cons.inj hahead
    rw [hnext]
    refine ⟨hhead, hsettings, ?_, htail, ?_, Nat.le_of_succ_le hlimit⟩
    · rw [Nat.add_right_comm]
      exact hcursor
    · rw [Nat.add_right_comm]
      exact herrors

/-- Tokens that are scanned ahead of their turn are kept in their order. -/
theorem Ready.scanAhead (h : s.Ready scan c n) {k : Nat}
    (hk : s.ahead.length + k ≤ lookaheadLimit) :
    (s.scanAhead k).Ready scan c n ∧ (s.scanAhead k).ahead.length = s.ahead.length + k := by
  induction k generalizing s with
  | zero => exact ⟨h, rfl⟩
  | succ k ih =>
    obtain ⟨htoken, hsettings, hcursor, hahead, herrors⟩ := h.scan_eq
    let t : TokenStream := { s.scan.2 with ahead := s.scan.2.ahead ++ [s.scan.1] }
    have hlength : t.ahead.length = s.ahead.length + 1 := by
      rw [← hahead]
      exact List.length_append
    have ht : t.Ready scan c n := by
      refine ⟨hsettings, ?_, ?_, ?_, ?_⟩
      · rw [hlength]
        exact hcursor
      · rw [hlength, List.range'_concat, Nat.one_mul, List.map_append, ← h.ahead, ← hahead]
        show s.scan.2.ahead ++ [s.scan.1] = _
        rw [htoken, hahead]
        rfl
      · rw [hlength]
        exact herrors
      · rw [hlength]
        omega
    obtain ⟨hready, hlength'⟩ := ih ht (by rw [hlength]; omega)
    exact ⟨hready, by rw [TokenStream.scanAhead, hlength', hlength]; omega⟩

/-- A look ahead finds the token that comes when it is its turn. -/
theorem Ready.peek (h : s.Ready scan c n) {k : Nat} (hpos : 1 ≤ k) (hk : k ≤ lookaheadLimit) :
    (s.peek k).1 = c.nth scan (n + (k - 1)) ∧ (s.peek k).2.Ready scan c n := by
  have hlimit := h.limit
  obtain ⟨hready, hlength⟩ := h.scanAhead (k := k - s.ahead.length) (by omega)
  have hget : (s.scanAhead (k - s.ahead.length)).ahead[k - 1]? =
      some (c.nth scan (n + (k - 1))) := by
    rw [hready.ahead, List.getElem?_map, List.getElem?_range' (by omega), Nat.one_mul]
    rfl
  have hasked : ¬(k = 0 ∨ lookaheadLimit < k) := by omega
  rw [TokenStream.peek, if_neg hasked]
  dsimp only
  rw [hget]
  exact ⟨rfl, hready⟩

/-- Looking ahead at no token or too far is refused, and changes nothing. -/
theorem peek_of_not (s : TokenStream) {k : Nat} (h : ¬(1 ≤ k ∧ k ≤ lookaheadLimit)) :
    s.peek k = (s.refusal k, s) := by
  have hasked : k = 0 ∨ lookaheadLimit < k := by omega
  rw [TokenStream.peek, if_pos hasked]

/-- The errors are those of the tokens that were scanned, taken or not. -/
theorem Ready.errors_eq {front : List Token} {last : Token} (h : s.Ready scan c n)
    (hnth : ∀ i, c.nth scan i = front[i]?.getD last) (hlast : last.kind = .eof) :
    s.errors.toList = (front.take (n + s.ahead.length)).filterMap Token.error? := by
  have hnone : last.error? = none := by rw [Token.error?, hlast]
  rw [h.errors, ← Cursor.errors_range hnone]
  simp only [hnth]

/-- Each request leaves the stream ready, for the next token if it takes one, and then it hands that
one out. -/
theorem Ready.answer (h : s.Ready scan c n) (request : Request) :
    (s.answer request).2.Ready scan c (n + request.context?.toList.length) ∧
      ∀ context ∈ request.context?,
        (s.answer request).1 = (c.nth scan n).inContext scan.golf context := by
  cases request with
  | next =>
    obtain ⟨htoken, hready⟩ := h.next
    refine ⟨hready, fun context hcontext => ?_⟩
    obtain rfl := Option.mem_some.1 hcontext
    rw [inContext_condition]
    exact htoken
  | nextIn context =>
    obtain ⟨htoken, hready⟩ := h.next
    refine ⟨hready, fun context' hcontext => ?_⟩
    obtain rfl := Option.mem_some.1 hcontext
    show s.next.1.inContext s.next.2.settings.golf context = _
    rw [htoken, hready.settings]
  | peek k =>
    refine ⟨?_, nofun⟩
    by_cases hk : 1 ≤ k ∧ k ≤ lookaheadLimit
    · exact (h.peek hk.1 hk.2).2
    · rw [TokenStream.answer, peek_of_not s hk]
      exact h
  | reread t context => exact ⟨h, nofun⟩

end Ready

/-! ## Sessions in numbers -/

namespace Session

section Takes

variable {scan : ScanSettings} {c : Cursor} {s : Session} {contexts : List ReadContext}

/-- In some contexts as many tokens were taken, one behind the other, and the stream is ready for
the token behind them. -/
structure Took (scan : ScanSettings) (c : Cursor) (contexts : List ReadContext) (s : Session) :
    Prop where
  ready : s.stream.Ready scan c contexts.length
  taken : s.taken = contexts.mapIdx fun i context => (c.nth scan i).inContext scan.golf context

theorem Took.act (h : s.Took scan c contexts) (request : Request) :
    (s.act request).Took scan c (contexts ++ request.context?.toList) := by
  obtain ⟨hready, hanswer⟩ := h.ready.answer request
  refine ⟨?_, ?_⟩
  · rw [List.length_append]
    exact hready
  · show s.taken ++ (request.context?.map fun _ => (s.stream.answer request).1).toList = _
    rw [h.taken, List.mapIdx_append]
    cases hcontext : request.context? with
    | none => rfl
    | some context => simp [hanswer context hcontext]

theorem Took.play (h : s.Took scan c contexts) (requests : List Request) :
    (s.play requests).Took scan c (contexts ++ requests.filterMap Request.context?) := by
  induction requests generalizing s contexts with
  | nil =>
    rw [List.filterMap_nil, List.append_nil]
    exact h
  | cons request requests ih =>
    have hcontexts : (request :: requests).filterMap Request.context? =
        request.context?.toList ++ requests.filterMap Request.context? := by
      rw [List.filterMap_cons]
      cases request.context? <;> rfl
    rw [hcontexts, ← List.append_assoc]
    exact ih (h.act request)

/-- The tokens that come next are taken one behind the other. -/
theorem Took.getLast?_play (h : s.Took scan c contexts) {k : Nat} (hpos : 1 ≤ k) :
    (s.play (List.replicate k .next)).taken.getLast? =
      some (c.nth scan (contexts.length + (k - 1))) := by
  obtain ⟨k, rfl⟩ := Nat.exists_eq_add_of_le' hpos
  have hcontexts : (List.replicate (k + 1) Request.next).filterMap Request.context? =
      List.replicate k .condition ++ [.condition] := by
    simp [List.filterMap_replicate, Request.context?, ← List.replicate_succ']
  have htaken := (h.play (List.replicate (k + 1) .next)).taken
  rw [hcontexts, ← List.append_assoc, List.mapIdx_concat] at htaken
  rw [htaken, List.getLast?_concat, inContext_condition, List.length_append,
    List.length_replicate, Nat.add_sub_cancel]

/-- **Looking ahead cannot be told from what is taken.** However taking tokens, looking ahead and
reading tokens anew alternate, the tokens that are taken are those of the source in their order, and
the end again and again, each as it is read in its context. A look ahead by one, two or three finds
the token that is the first, second or third to be taken from there on; any other is answered by an
error token, and changes nothing. No more than three tokens are held. The errors are some of those
of the whole source, from the first one on, and the errors of all tokens that were taken are among
them. -/
theorem play_takes (scan : ScanSettings) (source : String) :
    ∃ front last, (tokenize scan source).1 = front ++ [last] ∧ last.kind = .eof ∧
      (∀ t ∈ front, t.kind ≠ .eof) ∧
      ∀ requests : List Request,
        let contexts := requests.filterMap Request.context?
        let s := play ⟨ofSource scan source, []⟩ requests
        s.taken = contexts.mapIdx (fun i context =>
            (front[i]?.getD last).inContext scan.golf context) ∧
          (∀ k, 1 ≤ k ∧ k ≤ 3 →
            (s.play (List.replicate k .next)).taken.getLast? = some (s.stream.peek k).1) ∧
          (∀ k, ¬(1 ≤ k ∧ k ≤ 3) →
            (s.stream.peek k).1.kind.isError = true ∧ (s.stream.peek k).2 = s.stream) ∧
          s.stream.ahead.length ≤ 3 ∧
          s.stream.errors.toList <+: (tokenize scan source).2 ∧
          (front.take contexts.length).filterMap Token.error? <+: s.stream.errors.toList := by
  obtain ⟨front, last, htokens, hlast, hfront, hnth, -⟩ := Cursor.exists_nth scan source
  have herrors := errors_of_eq_concat htokens hlast
  refine ⟨front, last, htokens, hlast, hfront, fun requests => ?_⟩
  have hstart : Took scan ⟨{}, source.toList⟩ [] ⟨ofSource scan source, []⟩ :=
    ⟨ready_ofSource scan source, rfl⟩
  intro contexts s
  have htook : s.Took scan ⟨{}, source.toList⟩ contexts := hstart.play requests
  have hscanned := htook.ready.errors_eq hnth hlast
  refine ⟨?_, fun k hk => ?_, fun k hk => ?_, htook.ready.limit, ?_, ?_⟩
  · rw [htook.taken]
    exact congrArg (List.mapIdx · contexts) (funext fun i => funext fun _ => by rw [hnth])
  · rw [htook.getLast?_play hk.1, (htook.ready.peek hk.1 hk.2).1]
  · rw [peek_of_not s.stream hk]
    exact ⟨rfl, rfl⟩
  · rw [hscanned, herrors]
    exact (List.take_prefix _ front).filterMap _
  · rw [hscanned]
    exact (List.take_prefix_take_left (Nat.le_add_right _ _)).filterMap _

/-- An error is noted by a look ahead, before the token that it belongs to is taken. -/
example :
    let s := play ⟨ofSource {} "a & b", []⟩ [.peek 3, .next, .peek 4]
    s.taken.map Token.kind = [.identifier "a"] ∧ s.stream.errors.size = 1 := by
  decide +kernel

end Takes

end Session

end TokenStream

end Rulebook
