import Mathlib.Data.List.Induction
import Rulebook.Trace

/-!
# Traces as sliding windows

A trace with a capacity holds the last entries of the trace that would hold them all. Eviction
touches what is held, but neither the numbers of entries nor the links between the entries of a
node, so an entry is the same in both, its time apart, and is found under its number for as long
as it is held.

## Main definitions

* `Trace.Recording`, `Trace.perform`: what can be recorded
* `Trace.Event`, `Trace.replay`: recordings at given times, one after the other
* `Trace.Numbered`: the entries held have the last numbers that were issued
* `Trace.Slides`: a trace holds the last entries of another one

## Main results

* `Trace.Numbered.get?_eq`: entries are found under their numbers
* `Trace.Slides.record`: recording the same in both traces moves the window by one
* `Trace.toList_replay`: the trace of a capacity and the trace that evicts nothing
-/

namespace Rulebook

/-- The entry without its time. -/
def TraceEntry.timeless (e : TraceEntry) : TraceEntry :=
  { e with time := none }

namespace Trace

/-! ## What can be recorded -/

section Recording

/-- A recording with all that it is told. -/
inductive Recording where
  | heading (title : String)
  | enter (n : Node)
  | exit (n : Node) (result : Value)
  | condition (n : Node) (value : Value)
  | decision (n : Node) (branch : Branch)
  | consequence (n : Node) (o : Outcome Value)
  | activation (n : Node) (rule : String) (count : Nat)
  | change (n : Node) (name : String) (old : Option Value) (new : Value)
  | error (node : Option NodeId) (fault : Fault)
  | message (node : Option NodeId) (text : String)

/-- Records what a recording says. -/
def perform (t : Trace) : Recording → Trace
  | .heading title => t.heading title
  | .enter n => t.enter n
  | .exit n result => t.exit n result
  | .condition n value => t.condition n value
  | .decision n branch => t.decision n branch
  | .consequence n o => t.consequence n o
  | .activation n rule count => t.activation n rule count
  | .change n name old new => t.change n name old new
  | .error node fault => t.error node fault
  | .message node text => t.message node text

/-- A recording and the time at which it is made. -/
structure Event where
  time : Nat
  recording : Recording

/-- Makes recordings one after the other, each at its time. -/
def replay (t : Trace) (events : List Event) : Trace :=
  events.foldl (fun t e => { t with clock := e.time }.perform e.recording) t

theorem replay_concat (t : Trace) (events : List Event) (e : Event) :
    t.replay (events ++ [e]) = { t.replay events with clock := e.time }.perform e.recording := by
  rw [replay, List.foldl_append]
  rfl

end Recording

/-! ## Numbers -/

section Numbers

variable {t : Trace}

/-- The entries held have the last numbers that were issued, as many as the capacity allows. -/
structure Numbered (t : Trace) : Prop where
  evicted : t.evicted = t.nextSeq - t.capacity
  seqs : t.toList.map TraceEntry.seq = List.range' t.evicted (t.nextSeq - t.evicted)

theorem capacity_pos (t : Trace) : 0 < t.capacity :=
  Nat.le_max_left 1 _

theorem numbered_ofSettings (settings : TraceSettings) : (ofSettings settings).Numbered :=
  ⟨(Nat.zero_sub _).symm, rfl⟩

theorem Numbered.size_eq (h : t.Numbered) : t.size = t.nextSeq - t.evicted := by
  have hlength := congrArg List.length h.seqs
  rw [List.length_map, List.length_range'] at hlength
  rw [← hlength]
  exact (Window.length_toList t.entries).symm

/-- A trace never holds more than its capacity. -/
theorem Numbered.size_eq_min (h : t.Numbered) : t.size = min t.nextSeq t.capacity := by
  have hsize := h.size_eq
  have hevicted := h.evicted
  omega

/-- A new entry is the last one; it takes the place of the oldest if the trace is full. -/
theorem toList_push (t : Trace) (e : TraceEntry) : (t.push e).toList =
    (if t.capacity ≤ t.size then t.toList.tail else t.toList) ++ [e] := by
  rw [push, size]
  split
  · show ((t.entries.dropOldest t.capacity).append e).toList = _
    rw [Window.toList_append, Window.toList_dropOldest]
    rfl
  · exact Window.toList_append t.entries e

theorem evicted_push (t : Trace) (e : TraceEntry) : (t.push e).evicted =
    if t.capacity ≤ t.size then t.evicted + 1 else t.evicted := by
  rw [push, size]
  split <;> rfl

@[simp] theorem nextSeq_push (t : Trace) (e : TraceEntry) :
    (t.push e).nextSeq = t.nextSeq + 1 := by
  rw [push]
  split <;> rfl

@[simp] theorem settings_push (t : Trace) (e : TraceEntry) : (t.push e).settings = t.settings := by
  rw [push]
  split <;> rfl

/-- Pushing the entry with the next number keeps the numbers in order. -/
theorem Numbered.push (h : t.Numbered) {e : TraceEntry} (he : e.seq = t.nextSeq) :
    (t.push e).Numbered := by
  have hcapacity : (t.push e).capacity = t.capacity := by rw [capacity, capacity, settings_push]
  have hsize := h.size_eq
  have hpos := t.capacity_pos
  obtain ⟨hevicted, hseqs⟩ := h
  by_cases hfull : t.capacity ≤ t.size
  · have hnew : (t.push e).evicted = t.evicted + 1 := by rw [evicted_push, if_pos hfull]
    refine ⟨by rw [hnew, nextSeq_push, hcapacity]; omega, ?_⟩
    -- The oldest number goes, and the new one comes behind the others.
    obtain ⟨held, hheld⟩ : ∃ held, t.nextSeq - t.evicted = held + 1 := ⟨t.size - 1, by omega⟩
    have hcount : t.nextSeq + 1 - (t.evicted + 1) = held + 1 := by omega
    rw [hheld, List.range'_succ] at hseqs
    rw [toList_push, if_pos hfull, hnew, nextSeq_push, hcount, List.map_append, List.map_tail,
      hseqs, List.range'_concat, List.tail_cons, List.map_singleton, he]
    congr 2
    omega
  · have hnew : (t.push e).evicted = t.evicted := by rw [evicted_push, if_neg hfull]
    refine ⟨by rw [hnew, nextSeq_push, hcapacity]; omega, ?_⟩
    have hcount : t.nextSeq + 1 - t.evicted = (t.nextSeq - t.evicted) + 1 := by omega
    rw [toList_push, if_neg hfull, hnew, nextSeq_push, hcount, List.map_append, hseqs,
      List.range'_concat, List.map_singleton, he]
    congr 2
    omega

/-- An entry is found under its number for as long as it is held. -/
theorem Numbered.get?_eq (h : t.Numbered) (seq : Nat) :
    t.get? seq = if seq < t.evicted then none else t.toList[seq - t.evicted]? := by
  have hget (i : Nat) : t.entries.get? i = t.toList[i]? := (Window.getElem?_toList _ i).symm
  have hseqs := h.seqs
  cases hlist : t.toList with
  | nil =>
    rw [get?, hget, hlist]
    simp
  | cons first rest =>
    -- The number of the oldest entry is the number of entries that were evicted.
    have hfirst : first.seq = t.evicted := by
      rw [hlist, List.map_cons] at hseqs
      have hhead := congrArg List.head? hseqs
      rw [List.head?_cons, List.head?_range'] at hhead
      split at hhead
      · cases hhead
      · exact Option.some.inj hhead
    rw [get?, hget, hlist, List.getElem?_cons_zero]
    dsimp only
    rw [hget, hlist, hfirst]

end Numbers

/-! ## Two traces side by side -/

section Windows

variable {t full : Trace}

/-- One trace holds the last entries of another that has evicted none, their times apart, and both
go on in the same way. -/
structure Slides (t full : Trace) : Prop where
  numbered : t.Numbered
  numbered' : full.Numbered
  golf : full.settings.golf = t.settings.golf
  nextSeq : full.nextSeq = t.nextSeq
  depth : full.depth = t.depth
  stack : full.stack = t.stack
  lastSeq : full.lastSeq = t.lastSeq
  entries : t.toList.map TraceEntry.timeless =
    (full.toList.map TraceEntry.timeless).drop t.evicted

theorem slides_ofSettings {settings settings' : TraceSettings}
    (hgolf : settings'.golf = settings.golf) :
    (ofSettings settings).Slides (ofSettings settings') where
  numbered := numbered_ofSettings settings
  numbered' := numbered_ofSettings settings'
  golf := hgolf
  nextSeq := rfl
  depth := rfl
  stack := rfl
  lastSeq := rfl
  entries := rfl

/-- Pushing equal entries, one of which may evict another one. -/
theorem Slides.push (h : t.Slides full) (hroom : full.nextSeq < full.capacity) {e e' : TraceEntry}
    (hseq : e.seq = t.nextSeq) (he : e'.timeless = e.timeless) :
    (t.push e).Slides (full.push e') where
  numbered := h.numbered.push hseq
  numbered' := by
    have hseq' : e'.timeless.seq = e.timeless.seq := by rw [he]
    exact h.numbered'.push (hseq'.trans (hseq.trans h.nextSeq.symm))
  golf := by rw [settings_push, settings_push, h.golf]
  nextSeq := by rw [nextSeq_push, nextSeq_push, h.nextSeq]
  depth := by
    have hdepth (t : Trace) (e : TraceEntry) : (t.push e).depth = t.depth := by
      rw [Trace.push]
      split <;> rfl
    rw [hdepth, hdepth, h.depth]
  stack := by
    have hstack (t : Trace) (e : TraceEntry) : (t.push e).stack = t.stack := by
      rw [Trace.push]
      split <;> rfl
    rw [hstack, hstack, h.stack]
  lastSeq := by
    have hlast (t : Trace) (e : TraceEntry) : (t.push e).lastSeq = (t.append e).lastSeq := by
      rw [Trace.push]
      split <;> rfl
    have hnode : e'.node = e.node := by
      have hnode : e'.timeless.node = e.timeless.node := by rw [he]
      exact hnode
    rw [hlast, hlast, append, append, hnode, h.lastSeq, h.nextSeq]
  entries := by
    have hsize := h.numbered.size_eq
    have hsize' := h.numbered'.size_eq_min
    have hlength : full.toList.length = t.nextSeq := by
      have hheld : full.toList.length = full.size := Window.length_toList full.entries
      have hnext := h.nextSeq
      omega
    have hnot : ¬ full.capacity ≤ full.size := by omega
    rw [toList_push full, if_neg hnot, List.map_append, List.map_singleton, he]
    by_cases hfull : t.capacity ≤ t.size
    -- The window moves: the entry that leaves it stays in the trace that evicts none.
    · have hpos := t.capacity_pos
      rw [toList_push t, if_pos hfull, evicted_push, if_pos hfull, List.map_append, List.map_tail,
        h.entries, List.tail_drop, List.drop_append_of_le_length, List.map_singleton]
      rw [List.length_map, hlength]
      omega
    -- The window grows.
    · rw [toList_push t, if_neg hfull, evicted_push, if_neg hfull, List.map_append, h.entries,
        List.drop_append_of_le_length, List.map_singleton]
      have hevicted := h.numbered.evicted
      rw [List.length_map, hlength]
      omega

/-- Recording the same event, whatever the time. -/
theorem Slides.record (h : t.Slides full) (hroom : full.nextSeq < full.capacity)
    (event : TraceEvent) (node : Option NodeId) (message : String) (value : Option Value) :
    (t.record event node message value).Slides (full.record event node message value) := by
  refine h.push hroom rfl ?_
  have hlast : full.lastSeqOf node = t.lastSeqOf node := by rw [lastSeqOf, lastSeqOf, h.lastSeq]
  simp only [TraceEntry.timeless, h.nextSeq, h.depth, h.golf, hlast]

/-- Whatever is recorded in both traces moves the window by one entry at most. -/
theorem Slides.perform (h : t.Slides full) (hroom : full.nextSeq < full.capacity) (now now' : Nat)
    (r : Recording) :
    ({ t with clock := now }.perform r).Slides ({ full with clock := now' }.perform r) := by
  have hclock : Slides { t with clock := now } { full with clock := now' } :=
    ⟨⟨h.numbered.evicted, h.numbered.seqs⟩, ⟨h.numbered'.evicted, h.numbered'.seqs⟩, h.golf,
      h.nextSeq, h.depth, h.stack, h.lastSeq, h.entries⟩
  have hdescribe (n : Node) : describe { full with clock := now' } n =
      describe { t with clock := now } n := by
    simp only [describe, h.golf]
  cases r with
  | heading title => exact hclock.record hroom _ _ _ _
  | enter n =>
    -- The frame of the node is put on both stacks behind the record.
    have hrecord := hclock.record hroom .enter (some n.id) ("enter " ++ n.brief) none
    refine ⟨⟨hrecord.numbered.evicted, hrecord.numbered.seqs⟩,
      ⟨hrecord.numbered'.evicted, hrecord.numbered'.seqs⟩, hrecord.golf, hrecord.nextSeq,
      congrArg (· + 1) hrecord.depth, ?_, hrecord.lastSeq, hrecord.entries⟩
    exact congrArg₂ (fun depth stack => ⟨n.id, n.brief, depth⟩ :: stack) h.depth hrecord.stack
  | exit n result =>
    -- The stacks are unwound in the same way in front of the record.
    have hunwound : Slides
        { t with clock := now, depth := t.depth - 1, stack := unwind n.id t.stack }
        { full with clock := now', depth := full.depth - 1, stack := unwind n.id full.stack } :=
      ⟨⟨h.numbered.evicted, h.numbered.seqs⟩, ⟨h.numbered'.evicted, h.numbered'.seqs⟩, h.golf,
        h.nextSeq, congrArg (· - 1) h.depth, congrArg (unwind n.id) h.stack, h.lastSeq, h.entries⟩
    exact hunwound.record hroom _ _ _ _
  | condition n value =>
    have hrecord := hclock.record hroom (.condition value.isTruthy) (some n.id)
      ("condition " ++ describe { t with clock := now } n ++ " is " ++ toString value.isTruthy)
      (some value)
    rw [Trace.perform, Trace.perform, condition, condition, hdescribe]
    exact hrecord
  | decision n branch =>
    have hrecord := hclock.record hroom (.decision branch) (some n.id)
      ("took " ++ branch.name ++ " branch of " ++ describe { t with clock := now } n) none
    rw [Trace.perform, Trace.perform, decision, decision, hdescribe]
    exact hrecord
  | consequence n o => exact hclock.record hroom _ _ _ _
  | activation n rule count => exact hclock.record hroom _ _ _ _
  | change n name old new =>
    -- What is said of an old value depends on the mode alone.
    cases old with
    | none => exact hclock.record hroom _ _ _ _
    | some old =>
      simp only [Trace.perform, Trace.change, h.golf]
      exact hclock.record hroom _ _ _ _
  | error node fault => exact hclock.record hroom _ _ _ _
  | message node text => exact hclock.record hroom _ _ _ _

end Windows

/-! ## Whole sequences of recordings -/

section Replay

@[simp] theorem nextSeq_perform (t : Trace) (r : Recording) :
    (t.perform r).nextSeq = t.nextSeq + 1 := by
  cases r <;> exact nextSeq_push _ _

@[simp] theorem settings_perform (t : Trace) (r : Recording) :
    (t.perform r).settings = t.settings := by
  cases r <;> exact settings_push _ _

theorem nextSeq_replay (t : Trace) (events : List Event) :
    (t.replay events).nextSeq = t.nextSeq + events.length := by
  induction events generalizing t with
  | nil => rfl
  | cons e events ih =>
    have hfirst := nextSeq_perform { t with clock := e.time } e.recording
    refine (ih _).trans ?_
    rw [hfirst, List.length_cons, Nat.add_comm events.length, Nat.add_assoc]

theorem settings_replay (t : Trace) (events : List Event) :
    (t.replay events).settings = t.settings := by
  induction events generalizing t with
  | nil => rfl
  | cons e events ih => exact (ih _).trans (settings_perform _ _)

/-- The same recordings, at whatever times, as long as the second trace has room for all. -/
theorem slides_replay {settings settings' : TraceSettings}
    (hgolf : settings'.golf = settings.golf) {events events' : List Event}
    (hsame : events'.map Event.recording = events.map Event.recording)
    (hroom : events.length ≤ settings'.capacity) :
    ((ofSettings settings).replay events).Slides ((ofSettings settings').replay events') := by
  -- Induction on the recordings, the last one first.
  induction events using List.reverseRecOn generalizing events' with
  | nil =>
    obtain rfl := List.map_eq_nil_iff.1 hsame
    exact slides_ofSettings hgolf
  | append_singleton events e ih =>
    rw [List.map_append] at hsame
    obtain ⟨events', last, rfl, hfront, hlast⟩ := List.map_eq_append_iff.1 hsame
    obtain ⟨e', rfl, he⟩ := List.map_eq_singleton_iff.1 hlast
    rw [List.length_append, List.length_singleton] at hroom
    have hslides := ih hfront (by omega)
    have hlength : events'.length = events.length := by
      rw [← List.length_map (f := Event.recording), hfront, List.length_map]
    rw [replay_concat, replay_concat, he]
    refine hslides.perform ?_ _ _ _
    have hnext := nextSeq_replay (ofSettings settings') events'
    have hcapacity : ((ofSettings settings').replay events').capacity = settings'.capacity :=
      congrArg _ (settings_replay _ _)
    rw [hnext, hcapacity, hlength]
    show 0 + events.length < settings'.capacity
    omega

/-- **A trace is a sliding window over the trace that evicts nothing.** Of any recordings, made at
any times, a trace holds the last ones, as many as its capacity allows: the same entries, times
apart, as a trace of the same mode that has room for all and numbers them from zero. The others
were evicted, and exactly the entries that are held are found, each under its number. -/
theorem toList_replay (settings settings' : TraceSettings) (hgolf : settings'.golf = settings.golf)
    (events events' : List Event)
    (hsame : events'.map Event.recording = events.map Event.recording)
    (hroom : events.length ≤ settings'.capacity) :
    ((ofSettings settings').replay events').evicted = 0 ∧
      ((ofSettings settings').replay events').toList.map TraceEntry.seq =
        List.range events.length ∧
      ((ofSettings settings).replay events).size = min events.length settings.capacity ∧
      ((ofSettings settings).replay events).evicted =
        events.length - ((ofSettings settings).replay events).size ∧
      ((ofSettings settings).replay events).toList.map TraceEntry.timeless =
        (((ofSettings settings').replay events').toList.map TraceEntry.timeless).drop
          (events.length - min events.length settings.capacity) ∧
      ∀ seq, (((ofSettings settings).replay events).get? seq).map TraceEntry.timeless =
        if ((ofSettings settings).replay events).evicted ≤ seq ∧ seq < events.length then
          ((ofSettings settings').replay events').toList[seq]?.map TraceEntry.timeless
        else none := by
  have hslides := slides_replay hgolf hsame hroom
  have hcapacity : ((ofSettings settings).replay events).capacity = settings.capacity :=
    congrArg TraceSettings.capacity (settings_replay _ _)
  have hcapacity' : ((ofSettings settings').replay events').capacity = settings'.capacity :=
    congrArg TraceSettings.capacity (settings_replay _ _)
  have hnext : ((ofSettings settings).replay events).nextSeq = events.length :=
    (nextSeq_replay _ _).trans (Nat.zero_add _)
  have hnext' := hslides.nextSeq.trans hnext
  generalize (ofSettings settings).replay events = t at *
  generalize (ofSettings settings').replay events' = full at *
  have hsize := hslides.numbered.size_eq_min
  have hheld := hslides.numbered.size_eq
  have hevicted := hslides.numbered.evicted
  have hevicted' : full.evicted = 0 := by
    have h := hslides.numbered'.evicted
    omega
  have hseqs : full.toList.map TraceEntry.seq = List.range events.length := by
    rw [hslides.numbered'.seqs, hevicted', hnext', Nat.sub_zero, List.range_eq_range']
  rw [hcapacity, hnext] at hsize
  refine ⟨hevicted', hseqs, hsize, by omega, ?_, fun seq => ?_⟩
  · have hdropped : events.length - min events.length settings.capacity = t.evicted := by omega
    rw [hdropped, hslides.entries]
  · rw [hslides.numbered.get?_eq]
    by_cases hlow : seq < t.evicted
    · rw [if_pos hlow, if_neg (by omega)]
      rfl
    -- The position in the window is the position in the whole trace less what was evicted.
    · have hposition : t.evicted + (seq - t.evicted) = seq := by omega
      rw [if_neg hlow, ← List.getElem?_map, hslides.entries, List.getElem?_drop, hposition,
        List.getElem?_map]
      by_cases hhigh : seq < events.length
      · rw [if_pos ⟨by omega, hhigh⟩]
      · have hlength := congrArg List.length hseqs
        rw [List.length_map, List.length_range] at hlength
        rw [if_neg (by omega), List.getElem?_eq_none (by omega)]
        rfl

/-- Twelve remarks in a trace of capacity five, and the same ones at other times in a trace that has
room for a thousand: seven are evicted, and the last five are held. -/
theorem toList_replay_remarks :
    ((ofSettings { limit := some 5 }).replay
        ((List.range 12).map fun i => ⟨i, .message none (toString i)⟩)).evicted = 7 ∧
      ((ofSettings { limit := some 5 }).replay
        ((List.range 12).map fun i => ⟨i, .message none (toString i)⟩)).toList.map
          TraceEntry.timeless =
        (((ofSettings { limit := some 1000 }).replay
          ((List.range 12).map fun i => ⟨3 * i, .message none (toString i)⟩)).toList.map
            TraceEntry.timeless).drop 7 := by
  obtain ⟨-, -, hsize, hevicted, hentries, -⟩ :=
    toList_replay { limit := some 5 } { limit := some 1000 } rfl
      ((List.range 12).map fun i => ⟨i, .message none (toString i)⟩)
      ((List.range 12).map fun i => ⟨3 * i, .message none (toString i)⟩) (by simp) (by decide)
  rw [hsize] at hevicted
  exact ⟨hevicted, hentries⟩

end Replay

end Trace

end Rulebook
