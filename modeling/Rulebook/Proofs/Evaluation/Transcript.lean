import Rulebook.Proofs.Evaluation.Recording
import Rulebook.Proofs.Evaluation.Related

/-!
# Transcripts of evaluations

A trace holds no more entries than its capacity allows. What an evaluation recorded in all is held
by the trace of the same evaluation with room for everything: its transcript. What is said about
the entries that are held is then compared with what was recorded by one theorem, whatever the
capacity: the trace holds the end of the transcript.

## Main definitions

* `Trace.Shadows`: a trace holds the last entries of another one, as long as that has room
* `Evaluator.transcript`: all entries that an evaluation records

## Main results

* `Eval.shadowed_keeps`: the moves of an evaluation do the same to both traces
* `Evaluator.toList_run`: the trace of an evaluation holds the end of its transcript
* `Evaluator.length_transcript`: nothing is missing in a transcript
* `Evaluator.lastWhere_transcript`: the last entry that is found was the last one recorded
-/

namespace Rulebook

namespace Trace

/-! ## Traces that grow side by side -/

section Shadows

variable {t full : Trace}

/-- A trace holds the last entries of another one, as long as that has room for all of them. -/
structure Shadows (t full : Trace) : Prop where
  nextSeq : full.nextSeq = t.nextSeq
  slides : full.nextSeq ≤ full.capacity → t.Slides full

theorem shadows_ofSettings {settings settings' : TraceSettings}
    (hgolf : settings'.golf = settings.golf) :
    (ofSettings settings).Shadows (ofSettings settings') :=
  ⟨rfl, fun _ => slides_ofSettings hgolf⟩

/-- Both traces record the same. -/
theorem Shadows.perform (h : t.Shadows full) (r : Recording) :
    (t.perform r).Shadows (full.perform r) where
  nextSeq := by rw [nextSeq_perform, nextSeq_perform, h.nextSeq]
  slides hroom := by
    rw [nextSeq_perform, capacity, settings_perform] at hroom
    have hlt : full.nextSeq < full.capacity := hroom
    exact (h.slides (Nat.le_of_lt hlt)).perform hlt t.clock full.clock r

end Shadows

/-! ## Last entries -/

theorem lastWhere_append (p : TraceEntry → Bool) (front back : List TraceEntry) :
    lastWhere p (front ++ back) = (lastWhere p back).or (lastWhere p front) := by
  rw [lastWhere, List.reverse_append, List.find?_append]
  rfl

/-- The last entry among those that are left was the last one of all. -/
theorem lastWhere_of_drop {p : TraceEntry → Bool} {entries : List TraceEntry} {k : Nat}
    {e : TraceEntry} (h : lastWhere p (entries.drop k) = some e) :
    lastWhere p entries = some e := by
  rw [← List.take_append_drop k entries, lastWhere_append, h, Option.some_or]

/-- Times play no part in a search that does not look at them. -/
theorem lastWhere_map_timeless {p : TraceEntry → Bool} (hp : ∀ e, p e.timeless = p e)
    (entries : List TraceEntry) :
    lastWhere p (entries.map TraceEntry.timeless) =
      (lastWhere p entries).map TraceEntry.timeless := by
  have hcomp : p ∘ TraceEntry.timeless = p := funext hp
  rw [lastWhere, ← List.map_reverse, List.find?_map, hcomp]
  rfl

end Trace

namespace Eval

/-! ## Evaluations side by side -/

section States

variable {σ : Type} {ctx : EvalContext σ}

/-- Two states that differ in their traces, of which the first one holds the end of the second. -/
def Shadowed (s t : EvalState σ) : Prop :=
  ∃ full, t = { s with trace := full } ∧ s.trace.Shadows full

theorem Shadowed.record {s t : EvalState σ} (h : Shadowed s t) {f : Trace → Trace}
    (hf : ∀ {u full : Trace}, u.Shadows full → (f u).Shadows (f full)) :
    Shadowed (s.record ctx f) (t.record ctx f) := by
  obtain ⟨full, rfl, hfull⟩ := h
  simp only [EvalState.record]
  split
  · exact ⟨f full, rfl, hf hfull⟩
  · exact ⟨full, rfl, hfull⟩

theorem Shadowed.error {s t : EvalState σ} (h : Shadowed s t) (n : Node) (fault : Fault) :
    Shadowed (s.record ctx (·.error (some n.id) fault))
      (t.record ctx (·.error (some n.id) fault)) :=
  h.record fun h => h.perform (.error n.id fault)

/-- The moves of an evaluation do the same to both traces. -/
theorem shadowed_keeps : Keeps ctx ctx Eq Shadowed where
  golf := rfl
  maxDepth := rfl
  active := by
    rintro s _ ⟨full, rfl, -⟩
    rfl
  activate := by
    rintro s _ ⟨full, rfl, hfull⟩ active
    exact ⟨full, rfl, hfull⟩
  read := by
    rintro s _ ⟨full, rfl, hfull⟩ name
    exact ⟨rfl, full, rfl, hfull⟩
  perform := by
    rintro s _ ⟨full, rfl, hfull⟩ n _ rfl c c' haction hkind
    refine ⟨rfl, ?_⟩
    simp only [EvalState.performed, haction, hkind]
    refine Shadowed.record ?_ fun h => h.perform (.consequence n _)
    exact ⟨full, rfl, hfull⟩
  assigned := by
    rintro s _ ⟨full, rfl, hfull⟩ n _ rfl name value
    unfold EvalState.assigned
    refine Shadowed.record ?_ fun h => h.perform (.change n name _ value)
    exact ⟨full, rfl, hfull⟩
  decided := by
    rintro s _ ⟨full, rfl, hfull⟩ n _ c _ rfl rfl value
    unfold EvalState.decided
    refine Shadowed.record ?_ fun h => (h.perform (.condition c value)).perform (.decision n _)
    exact ⟨full, rfl, hfull⟩
  activated := by
    rintro s _ ⟨full, rfl, hfull⟩ n _ rfl head head' hname
    simp only [EvalState.activated, hname]
    refine Shadowed.record ?_ fun h => h.perform (.activation n head.name _)
    exact ⟨full, rfl, hfull⟩
  failed := by
    rintro s t h n _ rfl fault
    have herror : Shadowed (s.record ctx _) (t.record ctx _) := h.error n fault
    obtain ⟨full, hstate, hfull⟩ := herror
    exact ⟨full, congrArg (fun s : EvalState σ => { s with faults := s.faults.push fault }) hstate,
      hfull⟩
  error := by
    rintro s t h n _ rfl fault
    exact h.error n fault
  remark := by
    rintro s t h n _ rfl text
    exact h.record fun h => h.perform (.message n.id text)
  enter := by
    rintro s _ ⟨full, rfl, hfull⟩ n _ rfl
    unfold EvalState.enter
    refine Shadowed.record ?_ fun h => h.perform (.enter n)
    exact ⟨full, rfl, hfull⟩
  leave := by
    rintro s _ ⟨full, rfl, hfull⟩ n _ rfl value
    unfold EvalState.leave
    refine Shadowed.record ?_ fun h => h.perform (.exit n value)
    exact ⟨full, rfl, hfull⟩

end States

end Eval

/-! ## Runs -/

namespace Evaluator

variable {σ : Type} (e : Evaluator) (host : Host σ) (root : Node) (world : σ)

/-- The evaluator, with a trace that has room for so many entries. -/
def withRoom (room : Nat) : Evaluator :=
  { e with trace := .ofSettings { e.trace.settings with limit := some room } }

theorem run_shadows (room : Nat) :
    (e.run host root world).evaluator.trace.Shadows
      ((e.withRoom room).run host root world).evaluator.trace := by
  let ctx : EvalContext σ := ⟨host, e.settings, root.ruleTable⟩
  have hempty : e.trace.reset.Shadows (e.withRoom room).trace.reset := by
    rw [Trace.reset, Trace.reset]
    exact Trace.shadows_ofSettings rfl
  have hstart : Eval.Shadowed (e.start ctx world) ((e.withRoom room).start ctx world) :=
    Eval.Shadowed.record ⟨_, rfl, hempty⟩ fun h => h.perform (.heading "evaluation")
  have houtcome : Eval.Matching Eval.Shadowed (e.outcome host root world)
      ((e.withRoom room).outcome host root world) :=
    Eval.shadowed_keeps.node_self rfl _ root _ _ hstart
  rw [run_eq, run_eq]
  generalize e.outcome host root world = r, (e.withRoom room).outcome host root world = r'
    at houtcome
  cases houtcome with
  | ok value h =>
    obtain ⟨full, rfl, hfull⟩ := h
    exact hfull
  | error err h =>
    obtain ⟨full, rfl, hfull⟩ := h
    exact hfull

/-- All entries that an evaluation records, whether they are held at its end or were evicted: the
entries of the same evaluation with room for as many as were recorded. -/
def transcript : List TraceEntry :=
  ((e.withRoom (e.run host root world).evaluator.trace.nextSeq).run host root
    world).evaluator.trace.toList

theorem run_slides {room : Nat} (hroom : (e.run host root world).evaluator.trace.nextSeq ≤ room) :
    (e.run host root world).evaluator.trace.Slides
      ((e.withRoom room).run host root world).evaluator.trace := by
  have hshadows := e.run_shadows host root world room
  refine hshadows.slides ?_
  rw [hshadows.nextSeq, Trace.capacity, settings_trace_run]
  exact hroom.trans (Nat.le_max_right _ _)

/-- The trace of an evaluation holds the end of its transcript, times apart. -/
theorem toList_run :
    (e.run host root world).evaluator.trace.toList.map TraceEntry.timeless =
      ((e.transcript host root world).map TraceEntry.timeless).drop
        (e.run host root world).evaluator.trace.evicted :=
  (e.run_slides host root world (Nat.le_refl _)).entries

/-- Nothing is missing in a transcript. -/
theorem length_transcript :
    (e.transcript host root world).length = (e.run host root world).evaluator.trace.nextSeq := by
  have hslides := e.run_slides host root world (Nat.le_refl _)
  have hsize := hslides.numbered'.size_eq_min
  have hroom : (e.run host root world).evaluator.trace.nextSeq ≤
      (e.withRoom (e.run host root world).evaluator.trace.nextSeq).trace.settings.capacity :=
    Nat.le_max_right _ _
  rw [hslides.nextSeq, Trace.capacity, settings_trace_run, Nat.min_eq_left hroom] at hsize
  exact (Window.length_toList _).trans hsize

/-- The last entry that the trace of an evaluation holds of some was the last one of them that was
recorded. -/
theorem lastWhere_transcript {p : TraceEntry → Bool} (hp : ∀ entry, p entry.timeless = p entry)
    {entry : TraceEntry}
    (h : Trace.lastWhere p (e.run host root world).evaluator.trace.toList = some entry) :
    ∃ last, Trace.lastWhere p (e.transcript host root world) = some last ∧
      last.timeless = entry.timeless := by
  have hheld := Trace.lastWhere_map_timeless hp (e.run host root world).evaluator.trace.toList
  rw [h, toList_run] at hheld
  have hlast := Trace.lastWhere_of_drop hheld
  rw [Trace.lastWhere_map_timeless hp] at hlast
  exact Option.map_eq_some_iff.1 hlast

end Evaluator

end Rulebook
