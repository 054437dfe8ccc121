import Mathlib.Data.List.Nodup
import Rulebook.Proofs.Trace.Sliding

/-!
# Links between the entries of a node

Each entry knows the number of the entry before it that is about the same node, and the trace knows
the last one of each node. Links to entries that were evicted lead nowhere, all others lead to the
entry they are about, so following them finds what a search through the whole trace would find.

## Main definitions

* `Trace.lastWhere`: the last of some entries that satisfies a test
* `Trace.LeadsTo`: a number leads to the last entry about a node, if that is held
* `Trace.Linked`: all links of a trace lead to the entries that they are about
* `Trace.Recording.event`, `Trace.Recording.node`: what is recorded, and about which node

## Main results

* `Trace.Linked.perform`: recording keeps the links
* `Trace.Linked.lastOfKind?_eq`: following links finds the last entry of a kind about a node
* `Trace.lastOfKind?_replay`: after any recordings it finds the newest one that is held
* `Trace.exists_toList_perform`, `Trace.mem_toList_perform`: what is held after a recording
-/

namespace Rulebook

namespace Trace

/-! ## Last entries -/

section Last

variable {p : TraceEntry → Bool} {entries front : List TraceEntry} {e : TraceEntry}

/-- The last of some entries that satisfies a test. -/
def lastWhere (p : TraceEntry → Bool) (entries : List TraceEntry) : Option TraceEntry :=
  entries.reverse.find? p

theorem lastWhere_concat (p : TraceEntry → Bool) (entries : List TraceEntry) (e : TraceEntry) :
    lastWhere p (entries ++ [e]) = if p e then some e else lastWhere p entries := by
  rw [lastWhere, List.reverse_append, List.reverse_singleton, List.singleton_append,
    List.find?_cons]
  cases p e <;> rfl

theorem lastWhere_cons (p : TraceEntry → Bool) (e : TraceEntry) (entries : List TraceEntry) :
    lastWhere p (e :: entries) = (lastWhere p entries).or (if p e then some e else none) := by
  rw [lastWhere, List.reverse_cons, List.find?_append, List.find?_singleton]
  rfl

theorem lastWhere_eq_none_iff : lastWhere p entries = none ↔ ∀ e ∈ entries, ¬ p e := by
  simp [lastWhere]

theorem isSome_lastWhere_iff : (lastWhere p entries).isSome ↔ ∃ e ∈ entries, p e := by
  simp [lastWhere]

/-- Behind the last entry that satisfies a test there is none that does. -/
theorem exists_of_lastWhere_eq_some (h : lastWhere p entries = some e) :
    p e ∧ ∃ front back, entries = front ++ e :: back ∧ ∀ e' ∈ back, ¬ p e' := by
  obtain ⟨he, before, behind, hsplit, hbefore⟩ := List.find?_eq_some_iff_append.1 h
  refine ⟨he, behind.reverse, before.reverse, ?_, fun e' he' => ?_⟩
  · rw [List.reverse_eq_iff] at hsplit
    rw [hsplit]
    simp
  · simpa using hbefore e' (List.mem_reverse.1 he')

/-- The last entry does not change with entries behind it that fail the test. -/
theorem lastWhere_append_cons {back : List TraceEntry} (hback : ∀ e' ∈ back, ¬ p e') :
    lastWhere p (front ++ e :: back) = if p e then some e else lastWhere p front := by
  have hnone : back.reverse.find? p = none :=
    List.find?_eq_none.2 fun e' he' => hback e' (List.mem_reverse.1 he')
  rw [← lastWhere_concat, lastWhere, lastWhere, List.append_cons, List.reverse_append,
    List.find?_append, hnone, Option.none_or]

/-- An entry is about a node. -/
def isAbout (id : NodeId) (e : TraceEntry) : Bool :=
  e.node == some id

end Last

/-! ## Links -/

section Links

/-- A link from behind some entries leads to the last one that is about a node. If there is none,
the link leads nowhere, or to an entry that was evicted before them. -/
def LeadsTo (evicted : Nat) (entries : List TraceEntry) (id : NodeId) (link : Option Nat) : Prop :=
  match lastWhere (isAbout id) entries with
  | some e => link = some e.seq
  | none => ∀ seq, link = some seq → seq < evicted

/-- The trace leads to the last entry of each node, and each entry to the one before it. -/
structure Linked (t : Trace) : Prop where
  numbered : t.Numbered
  last : ∀ id, LeadsTo t.evicted t.toList id (t.lastSeqOf (some id))
  previous : ∀ front e back, t.toList = front ++ e :: back → ∀ id, e.node = some id →
    LeadsTo t.evicted front id e.previous

variable {t : Trace} {evicted : Nat} {entries : List TraceEntry} {id : NodeId} {link : Option Nat}

/-- An entry that goes takes the links to it along. -/
theorem LeadsTo.tail {e : TraceEntry} (h : LeadsTo evicted (e :: entries) id link)
    (he : e.seq = evicted) : LeadsTo (evicted + 1) entries id link := by
  unfold LeadsTo at h ⊢
  rw [lastWhere_cons] at h
  cases hlast : lastWhere (isAbout id) entries with
  | some e' =>
    rw [hlast] at h
    exact h
  | none =>
    rw [hlast, Option.none_or] at h
    intro seq hseq
    split at h
    · next hsome =>
      split at hsome
      · obtain rfl := Option.some.inj hsome
        rw [h] at hseq
        obtain rfl := Option.some.inj hseq
        omega
      · cases hsome
    · exact Nat.lt_succ_of_lt (h seq hseq)

theorem linked_ofSettings (settings : TraceSettings) : (ofSettings settings).Linked where
  numbered := numbered_ofSettings settings
  last id seq h := by simp [lastSeqOf, ofSettings] at h
  previous front e back h := by simp [toList, ofSettings] at h

/-- The oldest entry has the number of entries that were evicted. -/
theorem Numbered.seq_eq (h : t.Numbered) {front back : List TraceEntry} {e : TraceEntry}
    (hsplit : t.toList = front ++ e :: back) : e.seq = t.evicted + front.length := by
  have hseqs := h.seqs
  rw [hsplit, List.map_append, List.map_cons] at hseqs
  obtain ⟨k, -, hfront, hback⟩ := List.range'_eq_append_iff.1 hseqs.symm
  have hk := congrArg List.length hfront
  rw [List.length_map, List.length_range'] at hk
  rw [hk]
  have hfirst := (List.range'_eq_cons_iff.1 hback.symm).1
  omega

/-- Eviction takes the oldest entry and the links to it. -/
theorem Linked.tail (h : t.Linked) {e : TraceEntry} {rest : List TraceEntry}
    (hlist : t.toList = e :: rest) :
    (∀ id, LeadsTo (t.evicted + 1) rest id (t.lastSeqOf (some id))) ∧
      ∀ front e' back, rest = front ++ e' :: back → ∀ id, e'.node = some id →
        LeadsTo (t.evicted + 1) front id e'.previous := by
  have he : e.seq = t.evicted + ([] : List TraceEntry).length := h.numbered.seq_eq hlist
  refine ⟨fun id => ?_, fun front e' back hrest id hid => ?_⟩
  · have hlast := h.last id
    rw [hlist] at hlast
    exact hlast.tail he
  · have hprevious := h.previous (e :: front) e' back (by rw [hlist, hrest]; rfl) id hid
    exact hprevious.tail he

theorem lastSeqOf_push (t : Trace) (e : TraceEntry) (id : NodeId) :
    (t.push e).lastSeqOf (some id) =
      if e.node = some id then some t.nextSeq else t.lastSeqOf (some id) := by
  have hlast : (t.push e).lastSeq = (t.append e).lastSeq := by
    rw [push]
    split <;> rfl
  rw [lastSeqOf, hlast, append, lastSeqOf]
  cases hnode : e.node with
  | none => simp
  | some id' =>
    simp only [Option.bind_some, Std.TreeMap.getElem?_insert, Nat.compare_eq_eq,
      NodeId.number_inj, Option.some.injEq]

/-- An entry with the next number that is linked to the last entry of its node. -/
theorem Linked.push (h : t.Linked) {e : TraceEntry} (hseq : e.seq = t.nextSeq)
    (hprevious : e.previous = t.lastSeqOf e.node) : (t.push e).Linked := by
  -- Whether an entry goes or not, those that stay are linked among themselves.
  obtain ⟨held, hlist, hlast, hlinks⟩ : ∃ held, (t.push e).toList = held ++ [e] ∧
      (∀ id, LeadsTo (t.push e).evicted held id (t.lastSeqOf (some id))) ∧
      ∀ front e' back, held = front ++ e' :: back → ∀ id, e'.node = some id →
        LeadsTo (t.push e).evicted front id e'.previous := by
    rw [toList_push, evicted_push]
    split
    · next hfull =>
      have hsize := h.numbered.size_eq
      have hpos := t.capacity_pos
      obtain ⟨oldest, rest, hheld⟩ : ∃ oldest rest, t.toList = oldest :: rest := by
        have hlength : t.toList.length = t.size := Window.length_toList t.entries
        exact List.exists_cons_of_length_pos (by omega)
      obtain ⟨hlast, hlinks⟩ := h.tail hheld
      exact ⟨rest, by rw [hheld, List.tail_cons], hlast, hlinks⟩
    · exact ⟨t.toList, rfl, h.last, h.previous⟩
  refine ⟨h.numbered.push hseq, fun id => ?_, fun front e' back hsplit id hid => ?_⟩
  · rw [LeadsTo, hlist, lastWhere_concat, lastSeqOf_push, isAbout]
    by_cases hnode : e.node = some id
    · simp [hnode, hseq]
    · have hlead := hlast id
      rw [LeadsTo] at hlead
      simpa [hnode] using hlead
  · rw [hlist] at hsplit
    rcases List.eq_nil_or_concat back with rfl | ⟨back, last, rfl⟩
    · obtain ⟨rfl, he⟩ := List.append_inj' hsplit rfl
      obtain rfl := List.singleton_inj.1 he
      rw [hprevious, hid]
      exact hlast id
    · rw [List.concat_eq_append, ← List.cons_append, ← List.append_assoc] at hsplit
      exact hlinks front e' back (List.append_inj' hsplit rfl).1 id hid

theorem Linked.record (h : t.Linked) (event : TraceEvent) (node : Option NodeId)
    (message : String) (value : Option Value) : (t.record event node message value).Linked :=
  h.push rfl rfl

/-- Recording keeps the links. -/
theorem Linked.perform (h : t.Linked) (r : Recording) : (t.perform r).Linked := by
  cases r with
  | enter n =>
    -- Stack and depth play no part.
    have hrecord := h.record .enter (some n.id) ("enter " ++ n.brief) none
    exact ⟨⟨hrecord.numbered.evicted, hrecord.numbered.seqs⟩, hrecord.last, hrecord.previous⟩
  | exit n result =>
    have hbelow : { t with depth := t.depth - 1, stack := unwind n.id t.stack : Trace }.Linked :=
      ⟨⟨h.numbered.evicted, h.numbered.seqs⟩, h.last, h.previous⟩
    exact hbelow.record _ _ _ _
  | _ => exact h.record _ _ _ _

end Links

/-! ## Following links -/

section Following

variable {t : Trace}

/-- A number that leads to the last entry about a node finds it. -/
theorem Linked.get?_of_leadsTo (h : t.Linked) {entries rest : List TraceEntry}
    (hentries : t.toList = entries ++ rest) {id : NodeId} {link : Option Nat}
    (hlink : LeadsTo t.evicted entries id link) :
    link.bind t.get? = lastWhere (isAbout id) entries := by
  rw [LeadsTo] at hlink
  cases hlast : lastWhere (isAbout id) entries with
  | none =>
    rw [hlast] at hlink
    cases link with
    | none => rfl
    | some seq => rw [Option.bind_some, h.numbered.get?_eq, if_pos (hlink seq rfl)]
  | some e =>
    rw [hlast] at hlink
    obtain ⟨-, front, back, rfl, -⟩ := exists_of_lastWhere_eq_some hlast
    rw [List.append_assoc, List.cons_append] at hentries
    rw [hlink, Option.bind_some, h.numbered.get?_eq, h.numbered.seq_eq hentries,
      if_neg (by omega), hentries, Nat.add_sub_cancel_left,
      List.getElem?_append_right (Nat.le_refl _),
      Nat.sub_self, List.getElem?_cons_zero]

/-- An entry is about a node, and of a kind. -/
def isOfKind (id : NodeId) (kind : TraceKind) (e : TraceEntry) : Bool :=
  e.node == some id && e.kind == kind

/-- The way back over the entries of a node meets the last one of a kind. -/
theorem Linked.searchBack_eq (h : t.Linked) (kind : TraceKind) {entries rest : List TraceEntry}
    (hentries : t.toList = entries ++ rest) {id : NodeId} {link : Option Nat}
    (hlink : LeadsTo t.evicted entries id link) {steps : Nat} (hsteps : entries.length ≤ steps) :
    t.searchBack kind steps (link.bind t.get?) = lastWhere (isOfKind id kind) entries := by
  -- Induction on the steps, each of which leaves the entries behind the one that was met.
  rw [h.get?_of_leadsTo hentries hlink]
  induction steps generalizing entries rest link with
  | zero =>
    obtain rfl := List.length_eq_zero_iff.1 (Nat.le_zero.1 hsteps)
    rfl
  | succ steps ih =>
    cases hlast : lastWhere (isAbout id) entries with
    | none =>
      rw [lastWhere_eq_none_iff] at hlast
      refine (lastWhere_eq_none_iff.2 fun e he => ?_).symm
      have habout := hlast e he
      simp_all [isAbout, isOfKind]
    | some e =>
      obtain ⟨habout, front, back, rfl, hback⟩ := exists_of_lastWhere_eq_some hlast
      have hnode : e.node = some id := by simpa [isAbout] using habout
      have hskip : ∀ e' ∈ back, ¬ isOfKind id kind e' := fun e' he' hkind => by
        have habout := hback e' he'
        simp_all [isAbout, isOfKind]
      rw [searchBack, lastWhere_append_cons hskip]
      by_cases hkind : e.kind = kind
      · simp [hkind, hnode, isOfKind]
      · rw [List.append_assoc] at hentries
        have hprevious := h.previous front e (back ++ rest) hentries id hnode
        have hlength : front.length ≤ steps := by
          rw [List.length_append, List.length_cons] at hsteps
          omega
        rw [if_neg hkind, previousOf?, h.get?_of_leadsTo hentries hprevious,
          ih hentries hprevious hlength]
        simp [isOfKind, hkind]

/-- The last entry about a node is found, if it is held. -/
theorem Linked.lastFor?_eq (h : t.Linked) (id : NodeId) :
    t.lastFor? id = lastWhere (isAbout id) t.toList :=
  h.get?_of_leadsTo (List.append_nil _).symm (h.last id)

/-- Following links finds what a search through the whole trace finds. -/
theorem Linked.lastOfKind?_eq (h : t.Linked) (id : NodeId) (kind : TraceKind) :
    t.lastOfKind? id kind = lastWhere (isOfKind id kind) t.toList :=
  h.searchBack_eq kind (List.append_nil _).symm (h.last id)
    (Nat.le_of_eq (Window.length_toList t.entries))

theorem Linked.isSome_lastOfKind?_iff (h : t.Linked) {id : NodeId} {kind : TraceKind} :
    (t.lastOfKind? id kind).isSome ↔ ∃ e ∈ t.toList, e.node = some id ∧ e.kind = kind := by
  simp [h.lastOfKind?_eq, isSome_lastWhere_iff, isOfKind]

end Following

/-! ## Newest entries -/

section Newest

variable {t : Trace} {p : TraceEntry → Bool} {e : TraceEntry}

/-- The last of the entries held that satisfy a test is the one with the highest number. -/
theorem Numbered.lastWhere_eq_some_iff (h : t.Numbered) :
    lastWhere p t.toList = some e ↔
      e ∈ t.toList ∧ p e ∧ ∀ e' ∈ t.toList, p e' → e'.seq ≤ e.seq := by
  have newest {e : TraceEntry} (hlast : lastWhere p t.toList = some e) :
      e ∈ t.toList ∧ p e ∧ ∀ e' ∈ t.toList, p e' → e'.seq ≤ e.seq := by
    obtain ⟨he, front, back, hsplit, hback⟩ := exists_of_lastWhere_eq_some hlast
    refine ⟨by simp [hsplit], he, fun e' he' hp => ?_⟩
    rw [hsplit, List.mem_append, List.mem_cons] at he'
    rcases he' with hfront | rfl | hbehind
    · -- An entry further to the front has a lower number.
      obtain ⟨before, between, rfl⟩ := List.append_of_mem hfront
      rw [List.append_assoc, List.cons_append] at hsplit
      have hlow := h.seq_eq hsplit
      rw [← List.cons_append, ← List.append_assoc] at hsplit
      have hhigh := h.seq_eq hsplit
      rw [List.length_append, List.length_cons] at hhigh
      omega
    · exact Nat.le_refl _
    · exact absurd hp (hback e' hbehind)
  refine ⟨newest, fun ⟨hmem, hp, hmax⟩ => ?_⟩
  obtain ⟨last, hlast⟩ := Option.isSome_iff_exists.1 (isSome_lastWhere_iff.2 ⟨e, hmem, hp⟩)
  obtain ⟨hmem', hp', hmax'⟩ := newest hlast
  -- No two entries have the same number.
  have hseq : last.seq = e.seq := Nat.le_antisymm (hmax last hmem' hp') (hmax' e hmem hp)
  have hdistinct : (t.toList.map TraceEntry.seq).Nodup := by
    rw [h.seqs]
    exact List.nodup_range'
  rw [hlast, List.inj_on_of_nodup_map hdistinct hmem' hmem hseq]

theorem Linked.replay (h : t.Linked) (events : List Event) : (t.replay events).Linked := by
  induction events using List.reverseRecOn with
  | nil => exact h
  | append_singleton events event ih =>
    rw [replay_concat]
    have hclock : { t.replay events with clock := event.time : Trace }.Linked :=
      ⟨⟨ih.numbered.evicted, ih.numbered.seqs⟩, ih.last, ih.previous⟩
    exact hclock.perform event.recording

/-- **Following links is as good as a search.** After any recordings, at any capacity, the way back
over the entries of a node leads to the newest entry of a kind that is about the node and still
held. It leads nowhere only if no such entry is held, and the same is true of the last entry that
is about the node at all. -/
theorem lastOfKind?_replay (settings : TraceSettings) (events : List Event) (id : NodeId)
    (kind : TraceKind) :
    let t := (ofSettings settings).replay events
    (∀ e, t.lastOfKind? id kind = some e ↔
        e ∈ t.toList ∧ (e.node = some id ∧ e.kind = kind) ∧
          ∀ e' ∈ t.toList, e'.node = some id ∧ e'.kind = kind → e'.seq ≤ e.seq) ∧
      (t.lastOfKind? id kind = none ↔ ∀ e ∈ t.toList, ¬(e.node = some id ∧ e.kind = kind)) ∧
      (∀ e, t.lastFor? id = some e ↔
        e ∈ t.toList ∧ e.node = some id ∧
          ∀ e' ∈ t.toList, e'.node = some id → e'.seq ≤ e.seq) ∧
      (t.lastFor? id = none ↔ ∀ e ∈ t.toList, e.node ≠ some id) := by
  have hlinked := (linked_ofSettings settings).replay events
  intro t
  have hkind (e : TraceEntry) : isOfKind id kind e = true ↔ e.node = some id ∧ e.kind = kind := by
    simp [isOfKind]
  have habout (e : TraceEntry) : isAbout id e = true ↔ e.node = some id := by simp [isAbout]
  rw [hlinked.lastOfKind?_eq, hlinked.lastFor?_eq]
  simp only [hlinked.numbered.lastWhere_eq_some_iff, lastWhere_eq_none_iff, hkind, habout]
  exact ⟨fun _ => Iff.rfl, Iff.rfl, fun _ => Iff.rfl, Iff.rfl⟩

end Newest

/-! ## Entries and recordings -/

section Entries

/-- What a recording records. -/
def Recording.event : Recording → TraceEvent
  | .heading title => .heading title
  | .enter _ => .enter
  | .exit _ _ => .exit
  | .condition _ value => .condition value.isTruthy
  | .decision _ branch => .decision branch
  | .consequence _ o => .consequence o.action o.kind o.success
  | .activation _ rule count => .activation rule count
  | .change _ name _ _ => .change name
  | .error _ fault => .error fault.kind
  | .message _ _ => .message

/-- The node that a recording is about. -/
def Recording.node : Recording → Option NodeId
  | .heading _ => none
  | .enter n | .exit n _ | .condition n _ | .decision n _ | .consequence n _ | .activation n _ _
  | .change n _ _ _ => some n.id
  | .error node _ | .message node _ => node

theorem exists_toList_record (t : Trace) (event : TraceEvent) (node : Option NodeId)
    (message : String) (value : Option Value) :
    ∃ held e, (t.record event node message value).toList = held ++ [e] ∧ held <:+ t.toList ∧
      e.event = event ∧ e.node = node := by
  rw [record, toList_push]
  split
  · exact ⟨_, _, rfl, List.tail_suffix _, rfl, rfl⟩
  · exact ⟨_, _, rfl, List.suffix_refl _, rfl, rfl⟩

/-- A recording adds an entry behind those that stay, which are the last ones before it. -/
theorem exists_toList_perform (t : Trace) (r : Recording) :
    ∃ held e, (t.perform r).toList = held ++ [e] ∧ held <:+ t.toList ∧ e.event = r.event ∧
      e.node = r.node := by
  cases r with
  | exit n result =>
    exact exists_toList_record { t with depth := t.depth - 1, stack := unwind n.id t.stack } _ _ _ _
  | _ => exact exists_toList_record t _ _ _ _

/-- What is held after a recording was held before it, or was recorded. -/
theorem mem_toList_perform {t : Trace} {r : Recording} {e : TraceEntry}
    (h : e ∈ (t.perform r).toList) : e ∈ t.toList ∨ e.event = r.event ∧ e.node = r.node := by
  obtain ⟨held, last, hlist, hheld, hevent, hnode⟩ := t.exists_toList_perform r
  rw [hlist, List.mem_append, List.mem_singleton] at h
  rcases h with h | rfl
  · exact .inl (hheld.subset h)
  · exact .inr ⟨hevent, hnode⟩

end Entries

end Trace

end Rulebook
