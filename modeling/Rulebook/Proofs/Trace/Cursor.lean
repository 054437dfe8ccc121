import Rulebook.Proofs.Trace.Sliding

/-!
# Reading a trace that grows

The cursor of a trace is a position among the entries that are held, and these move when the oldest
one goes. So it moves down with them. Where it is at the oldest entry already it stays, and then an
entry goes that was not read. Counted in numbers of entries instead, the cursor stands behind all
entries read so far, or at the oldest one held, whichever is later.

## Main definitions

* `Trace.Action`: recording, reading, and starting anew
* `Trace.Session`: a trace, with the entries read since the last start
* `Trace.Session.InOrder`: where the cursor of a trace is, in numbers of entries

## Main results

* `Trace.Session.InOrder.act`: each action keeps the cursor where it should be
* `Trace.Session.play_reads`: reading gives the oldest entry that is held and was not read yet
-/

namespace Rulebook

namespace Trace

/-! ## Sessions -/

section Sessions

/-- What can be done with a trace. -/
inductive Action where
  /-- An event is recorded at its time. -/
  | record (event : Event)
  | next
  | rewind
  | reset

/-- A trace, and the entries that were read since the trace was last rewound or reset, in the order
in which they were read. -/
structure Session where
  trace : Trace
  read : List TraceEntry := []

namespace Session

/-- The numbers of the entries that were read. -/
def seqs (s : Session) : List Nat :=
  s.read.map TraceEntry.seq

/-- One action. -/
def act (s : Session) : Action → Session
  | .record event =>
    { s with trace := { s.trace with clock := event.time }.perform event.recording }
  | .next =>
    let (entry, trace) := s.trace.next
    ⟨trace, s.read ++ entry.toList⟩
  | .rewind => ⟨s.trace.rewind, []⟩
  | .reset => ⟨s.trace.reset, []⟩

/-- Actions one after the other. -/
def play (s : Session) (actions : List Action) : Session :=
  actions.foldl act s

end Session

end Sessions

/-! ## The cursor in numbers -/

section Cursor

variable {t : Trace}

/-- The cursor moves with the entries that stay, when one goes. -/
theorem cursor_push (t : Trace) (e : TraceEntry) :
    (t.push e).cursor = t.cursor - ((t.push e).evicted - t.evicted) := by
  rw [push]
  split
  · show t.cursor - 1 = t.cursor - (t.evicted + 1 - t.evicted)
    rw [Nat.add_sub_cancel_left]
  · show t.cursor = t.cursor - (t.evicted - t.evicted)
    rw [Nat.sub_self, Nat.sub_zero]

theorem evicted_le_push (t : Trace) (e : TraceEntry) : t.evicted ≤ (t.push e).evicted := by
  rw [evicted_push]
  split
  · exact Nat.le_succ _
  · exact Nat.le_refl _

/-- Behind a recording the cursor stands where it stood, in numbers, unless the entry there is
gone. -/
theorem cursor_perform (t : Trace) (r : Recording) :
    t.evicted ≤ (t.perform r).evicted ∧
      (t.perform r).cursor = t.cursor - ((t.perform r).evicted - t.evicted) := by
  cases r with
  | exit n result =>
    -- Stack and depth play no part.
    let below : Trace := { t with depth := t.depth - 1, stack := unwind n.id t.stack }
    exact ⟨evicted_le_push below _, cursor_push below _⟩
  | _ => exact ⟨evicted_le_push t _, cursor_push t _⟩

theorem Numbered.record (h : t.Numbered) (event : TraceEvent) (node : Option NodeId)
    (message : String) (value : Option Value) : (t.record event node message value).Numbered :=
  h.push rfl

theorem Numbered.perform (h : t.Numbered) (r : Recording) : (t.perform r).Numbered := by
  cases r with
  | enter n =>
    have hrecord := h.record .enter (some n.id) ("enter " ++ n.brief) none
    exact ⟨hrecord.evicted, hrecord.seqs⟩
  | exit n result =>
    have hbelow : { t with depth := t.depth - 1, stack := unwind n.id t.stack : Trace }.Numbered :=
      ⟨h.evicted, h.seqs⟩
    exact hbelow.record _ _ _ _
  | _ => exact h.record _ _ _ _

/-- The entries held are numbered from the number of those that are gone. -/
theorem Numbered.seq_getElem? (h : t.Numbered) {i : Nat} {e : TraceEntry}
    (he : t.toList[i]? = some e) : e.seq = t.evicted + i := by
  have hseq := congrArg (·[i]?) h.seqs
  obtain ⟨hlt, -⟩ := List.getElem?_eq_some_iff.1 he
  have hlength : t.toList.length = t.nextSeq - t.evicted :=
    (Window.length_toList t.entries).trans h.size_eq
  simp only [List.getElem?_map, he, Option.map_some] at hseq
  rw [List.getElem?_range' (by omega)] at hseq
  simpa using hseq

end Cursor

/-! ## Reading -/

section Reading

namespace Session

variable {s : Session}

/-- The cursor stands behind the entries that were read, or at the oldest entry that is held if
that is later. What is in front of it was read, or is gone. -/
structure InOrder (s : Session) (reached : Nat) : Prop where
  numbered : s.trace.Numbered
  cursor : s.trace.cursor = reached - s.trace.evicted
  read_lt : ∀ seq ∈ s.seqs, seq < reached
  read_or_gone : ∀ seq < reached, seq ∈ s.seqs ∨ seq < s.trace.evicted
  increasing : s.seqs.Pairwise (· < ·)

theorem inOrder_of_empty {t : Trace} (h : t.Numbered) (hcursor : t.cursor = 0) :
    InOrder ⟨t, []⟩ 0 where
  numbered := h
  cursor := by rw [hcursor, Nat.zero_sub]
  read_lt := List.forall_mem_nil _
  read_or_gone seq hseq := absurd hseq (Nat.not_lt_zero seq)
  increasing := .nil

theorem InOrder.record {reached : Nat} (h : s.InOrder reached) (event : Event) :
    (s.act (.record event)).InOrder reached := by
  let t : Trace := { s.trace with clock := event.time }
  have ht : t.Numbered := ⟨h.numbered.evicted, h.numbered.seqs⟩
  obtain ⟨hle, hcursor⟩ := cursor_perform t event.recording
  refine ⟨ht.perform event.recording, ?_, h.read_lt, fun seq hseq => ?_, h.increasing⟩
  · calc (t.perform event.recording).cursor
        = t.cursor - ((t.perform event.recording).evicted - t.evicted) := hcursor
      _ = reached - t.evicted - ((t.perform event.recording).evicted - t.evicted) :=
          congrArg (· - _) h.cursor
      _ = reached - (t.perform event.recording).evicted := by
          rw [Nat.sub_sub, Nat.add_sub_of_le hle]
  · exact (h.read_or_gone seq hseq).imp_right (Nat.lt_of_lt_of_le · hle)

theorem next_eq_getElem? (t : Trace) : t.next.1 = t.toList[t.cursor]? := by
  rw [Trace.next, toList, Window.getElem?_toList]
  split
  · next e he => rw [he]
  · next he => rw [he]

/-- Entries in front of the cursor were read. -/
theorem InOrder.mem_seqs {reached : Nat} (h : s.InOrder reached) {i : Nat} {e : TraceEntry}
    (he : s.trace.toList[i]? = some e) (hi : i < s.trace.cursor) : e.seq ∈ s.seqs := by
  have hseq := h.numbered.seq_getElem? he
  have hcursor := h.cursor
  exact (h.read_or_gone e.seq (by omega)).resolve_right (by omega)

/-- The entry at the cursor was not read. -/
theorem InOrder.le_seq {reached : Nat} (h : s.InOrder reached) {e : TraceEntry}
    (he : s.trace.toList[s.trace.cursor]? = some e) : reached ≤ e.seq := by
  have hseq := h.numbered.seq_getElem? he
  have hcursor := h.cursor
  omega

/-- So it is the oldest one held that was not read. -/
theorem InOrder.next_eq {reached : Nat} (h : s.InOrder reached) :
    s.trace.next.1 = s.trace.toList.find? fun e => e.seq ∉ s.seqs := by
  rw [next_eq_getElem?]
  cases he : s.trace.toList[s.trace.cursor]? with
  | none =>
    refine (List.find?_eq_none.2 fun e hmem => ?_).symm
    obtain ⟨i, hi⟩ := List.mem_iff_getElem?.1 hmem
    obtain ⟨hlt, -⟩ := List.getElem?_eq_some_iff.1 hi
    have hlength := List.getElem?_eq_none_iff.1 he
    simpa using h.mem_seqs hi (by omega)
  | some e =>
    have hnew : e.seq ∉ s.seqs := fun hmem =>
      absurd (h.read_lt e.seq hmem) (Nat.not_lt.2 (h.le_seq he))
    obtain ⟨hlt, hget⟩ := List.getElem?_eq_some_iff.1 he
    refine (List.find?_eq_some_iff_getElem.2 ⟨by simpa using hnew, _, hlt, hget, ?_⟩).symm
    intro j hj
    simpa using h.mem_seqs (List.getElem?_eq_getElem (Nat.lt_trans hj hlt)) hj

theorem InOrder.hasMore_iff {reached : Nat} (h : s.InOrder reached) :
    s.trace.hasMore = true ↔ ∃ e ∈ s.trace.toList, e.seq ∉ s.seqs := by
  have hsome : s.trace.hasMore = true ↔ s.trace.next.1.isSome := by
    rw [next_eq_getElem?, isSome_getElem?, hasMore, decide_eq_true_iff]
    exact Iff.of_eq (congrArg _ (Window.length_toList s.trace.entries).symm)
  rw [hsome, h.next_eq, List.find?_isSome]
  simp

theorem InOrder.next {reached : Nat} (h : s.InOrder reached) :
    ∃ reached, (s.act .next).InOrder reached := by
  have hget := next_eq_getElem? s.trace
  rw [toList, Window.getElem?_toList] at hget
  cases he : s.trace.entries.get? s.trace.cursor with
  | none =>
    have hact : s.act .next = s := by simp [act, Trace.next, he]
    rw [hact]
    exact ⟨reached, h⟩
  | some e =>
    have hact : s.act .next =
        ⟨{ s.trace with cursor := s.trace.cursor + 1 }, s.read ++ [e]⟩ := by
      simp [act, Trace.next, he]
    rw [← Window.getElem?_toList] at he
    have hseq := h.numbered.seq_getElem? he
    have hcursor := h.cursor
    have hreached := h.le_seq he
    have hseqs : (Session.mk { s.trace with cursor := s.trace.cursor + 1 } (s.read ++ [e])).seqs =
        s.seqs ++ [e.seq] := List.map_append
    refine ⟨e.seq + 1, hact ▸ ⟨⟨h.numbered.evicted, h.numbered.seqs⟩, ?_, ?_, ?_, ?_⟩⟩
    · show s.trace.cursor + 1 = e.seq + 1 - s.trace.evicted
      omega
    · rw [hseqs, List.forall_mem_append, List.forall_mem_singleton]
      refine ⟨fun seq hmem => ?_, Nat.lt_succ_self _⟩
      have hlt := h.read_lt seq hmem
      omega
    · intro seq hlt
      show seq ∈ _ ∨ seq < s.trace.evicted
      rw [hseqs, List.mem_append, List.mem_singleton]
      by_cases hnew : seq = e.seq
      · exact .inl (.inr hnew)
      · by_cases hold : seq < reached
        · exact (h.read_or_gone seq hold).imp_left .inl
        · -- Between the place reached and the entry there is nothing but what is gone.
          exact .inr (by omega)
    · rw [hseqs, List.pairwise_append]
      refine ⟨h.increasing, List.pairwise_singleton _ _, fun seq hmem last hlast => ?_⟩
      obtain rfl := List.mem_singleton.1 hlast
      exact Nat.lt_of_lt_of_le (h.read_lt seq hmem) hreached

/-- Each action keeps the cursor where it should be. -/
theorem InOrder.act {reached : Nat} (h : s.InOrder reached) (action : Action) :
    ∃ reached, (s.act action).InOrder reached := by
  cases action with
  | record event => exact ⟨reached, h.record event⟩
  | next => exact h.next
  | rewind => exact ⟨0, inOrder_of_empty ⟨h.numbered.evicted, h.numbered.seqs⟩ rfl⟩
  | reset => exact ⟨0, inOrder_of_empty (numbered_ofSettings _) rfl⟩

theorem exists_inOrder_play (settings : TraceSettings) (actions : List Action) :
    ∃ reached, (play ⟨ofSettings settings, []⟩ actions).InOrder reached := by
  -- Induction on the actions, the last one first.
  induction actions using List.reverseRecOn with
  | nil => exact ⟨0, inOrder_of_empty (numbered_ofSettings settings) rfl⟩
  | append_singleton actions action ih =>
    obtain ⟨reached, h⟩ := ih
    rw [play, List.foldl_append]
    exact h.act action

/-- **The cursor survives eviction.** However recording and reading alternate, at any capacity,
reading gives the oldest entry held that was not read since the trace was last rewound or reset,
and there is more to read exactly as long as there is such an entry. The numbers of the entries
read increase, so none is read twice, and where they leave out a number, its entry was gone when
the one behind it was read. -/
theorem play_reads (settings : TraceSettings) (actions : List Action) :
    let s := play ⟨ofSettings settings, []⟩ actions
    s.seqs.Pairwise (· < ·) ∧
      (s.trace.next.1 = s.trace.toList.find? fun e => e.seq ∉ s.seqs) ∧
      (s.trace.hasMore = true ↔ ∃ e ∈ s.trace.toList, e.seq ∉ s.seqs) ∧
      ∀ read ∈ s.seqs, ∀ seq < read, seq ∈ s.seqs ∨ seq < s.trace.evicted := by
  intro s
  obtain ⟨reached, h⟩ := exists_inOrder_play settings actions
  exact ⟨h.increasing, h.next_eq, h.hasMore_iff, fun read hread seq hlt =>
    h.read_or_gone seq (Nat.lt_trans hlt (h.read_lt read hread))⟩

/-- A trace of capacity two lets an entry go before it was read, and goes on behind it. -/
example :
    let remark : Action := .record ⟨0, .message none "a"⟩
    (play ⟨ofSettings { limit := some 2 }, []⟩
      [remark, .next, remark, remark, remark, .next, .next, .next]).seqs = [0, 2, 3] := by
  decide

end Session

end Reading

end Trace

end Rulebook
