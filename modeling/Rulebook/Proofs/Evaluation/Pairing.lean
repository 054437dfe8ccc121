import Rulebook.Proofs.Evaluation.Invariant
import Rulebook.Proofs.Evaluation.Recording
import Rulebook.Proofs.Node.Index

/-!
# Conditions and decisions in pairs

When the condition of a decision has a value, an evaluation records this value and, at once, the
branch that it leads to. So in a trace the two entries stand together, unless the first one was
evicted. An explanation looks them up one by one, each as the last entry of its node, and still
finds two that belong together: between the last decision at a node and the end of the trace, its
condition had no other value.

## Main definitions

* `TraceEntry.Decides`: an entry has the value of a condition, another one the branch taken
* `Trace.Paired`: conditions and decisions stand together

## Main results

* `Evaluator.run_paired`: conditions and decisions stand together in the trace of an evaluation
* `Trace.Paired.branch_eq`: the last entries of a decision and of its condition agree
-/

namespace Rulebook

/-- Entries of the two kinds that stand in pairs. -/
def TraceKind.isPaired : TraceKind → Bool
  | condition | decision => true
  | _ => false

/-- One entry tells the value of the condition of a decision, the other one that the decision took
the branch to which this leads. -/
def TraceEntry.Decides (scope : Node → Prop) (a b : TraceEntry) : Prop :=
  ∃ n c yes no result, scope n ∧ n.kind = .decision (some c) yes no ∧
    a.node = some c.id ∧ a.event = .condition result ∧
    b.node = some n.id ∧ b.event = .decision (.ofBool result)

namespace Trace

/-! ## Pairs of entries -/

/-- Behind each value of a condition stands the decision that was made by it, and in front of each
decision the value, if entries are left there. -/
structure Paired (scope : Node → Prop) (entries : List TraceEntry) : Prop where
  chain : entries.IsChain fun a b => a.kind = .condition ∨ b.kind = .decision → a.Decides scope b
  last : ∀ e ∈ entries.getLast?, e.kind ≠ .condition

section Pairs

variable {scope : Node → Prop} {entries held : List TraceEntry} {t : Trace}

theorem paired_nil (scope : Node → Prop) : Paired scope [] :=
  ⟨.nil, by simp⟩

theorem Paired.suffix (h : Paired scope entries) (hheld : held <:+ entries) :
    Paired scope held where
  chain := h.chain.suffix hheld
  last e he := by
    obtain ⟨front, rfl⟩ := hheld
    refine h.last e ?_
    rw [List.getLast?_append, he]
    rfl

/-- An entry of another kind. -/
theorem Paired.concat (h : Paired scope entries) {e : TraceEntry}
    (he : e.kind.isPaired = false) : Paired scope (entries ++ [e]) where
  chain := by
    refine h.chain.append (.singleton e) fun a ha b hb => ?_
    obtain rfl : e = b := by simpa using hb
    rintro (hkind | hkind)
    · exact absurd hkind (h.last a ha)
    · rw [hkind] at he
      cases he
  last a ha := by
    obtain rfl : e = a := by simpa using ha
    intro hkind
    rw [hkind] at he
    cases he

/-- Two entries that belong together, of which the first one may have gone already. -/
theorem Paired.concat_decides (h : Paired scope entries) {a b : TraceEntry}
    (hdecides : a.Decides scope b) (hheld : held <:+ entries ++ [a]) :
    Paired scope (held ++ [b]) where
  chain := by
    have hchain : (entries ++ [a]).IsChain fun a b =>
        a.kind = .condition ∨ b.kind = .decision → a.Decides scope b := by
      refine h.chain.append (.singleton a) fun d hd b hb => ?_
      obtain rfl : a = b := by simpa using hb
      obtain ⟨_, _, _, _, _, _, _, _, hevent, _⟩ := hdecides
      rintro (hkind | hkind)
      · exact absurd hkind (h.last d hd)
      · rw [TraceEntry.kind, hevent] at hkind
        cases hkind
    refine (hchain.suffix hheld).append (.singleton b) fun d hd b' hb' => ?_
    obtain rfl : b = b' := by simpa using hb'
    -- If an entry is left in front of the decision, it is that of its condition.
    obtain ⟨front, hfront⟩ := hheld
    have hlast := congrArg List.getLast? hfront
    rw [List.getLast?_append, hd, List.getLast?_concat] at hlast
    obtain rfl : d = a := Option.some.inj hlast
    exact fun _ => hdecides
  last e he := by
    obtain rfl : b = e := by simpa using he
    obtain ⟨_, _, _, _, _, _, _, _, _, _, hevent⟩ := hdecides
    rw [TraceEntry.kind, hevent]
    intro hkind
    cases hkind

/-- A recording of another kind. -/
theorem Paired.perform (h : Paired scope t.toList) (r : Recording)
    (hr : r.event.kind.isPaired = false) : Paired scope (t.perform r).toList := by
  obtain ⟨held, e, hlist, hheld, hevent, -⟩ := t.exists_toList_perform r
  rw [← hevent] at hr
  rw [hlist]
  exact (h.suffix hheld).concat hr

/-- A decision is recorded behind its condition. -/
theorem Paired.decide (h : Paired scope t.toList) {n c : Node} {yes no : Option Node}
    (hn : scope n) (hk : n.kind = .decision (some c) yes no) (value : Value) :
    Paired scope ((t.condition c value).decision n (.ofBool value.isTruthy)).toList := by
  obtain ⟨held, a, hlist, hheld, hevent, hnode⟩ := t.exists_toList_perform (.condition c value)
  obtain ⟨held', b, hlist', hheld', hevent', hnode'⟩ :=
    (t.condition c value).exists_toList_perform (.decision n (.ofBool value.isTruthy))
  have hdecides : a.Decides scope b :=
    ⟨n, c, yes, no, value.isTruthy, hn, hk, hnode, hevent, hnode', hevent'⟩
  rw [show (t.condition c value).toList = held ++ [a] from hlist] at hheld'
  have hpaired := (h.suffix hheld).concat_decides hdecides hheld'
  rwa [← hlist'] at hpaired

end Pairs

/-! ## Looking up both -/

/-- The last entry of a decision took the branch that the last entry of its condition leads to. -/
theorem Paired.branch_eq {root : Node} (hids : (root.nodes.map Node.id).Nodup)
    {entries : List TraceEntry} (h : Paired (· ∈ root.nodes) entries) {n c : Node}
    {yes no : Option Node} (hn : n ∈ root.nodes) (hk : n.kind = .decision (some c) yes no)
    {a b : TraceEntry} {result : Bool} {taken : Branch}
    (ha : lastWhere (isOfKind c.id .condition) entries = some a)
    (hb : lastWhere (isOfKind n.id .decision) entries = some b)
    (hresult : a.event = .condition result) (htaken : b.event = .decision taken) :
    taken = .ofBool result := by
  have hchild {m d : Node} {yes no : Option Node} (hm : m.kind = .decision (some d) yes no) :
      d ∈ m.childNodes :=
    List.mem_append_left _ (List.mem_filterMap.2 ⟨some d, by simp [hm, Kind.slots], rfl⟩)
  have hcid : c ∈ root.nodes := Node.mem_nodes_of_mem_childNodes_of_mem hn (hchild hk)
  obtain ⟨hkind, front, back, rfl, hback⟩ := exists_of_lastWhere_eq_some ha
  have hac : a.node = some c.id ∧ a.kind = .condition := by simpa [isOfKind] using hkind
  -- Only this decision is made by this condition.
  have hmade {x y : TraceEntry} (hx : x.node = some c.id) (hxy : x.Decides (· ∈ root.nodes) y) :
      ∃ result, x.event = .condition result ∧ y.node = some n.id ∧
        y.event = .decision (.ofBool result) := by
    obtain ⟨m, d, yes', no', result, hm, hmk, hxd, hxe, hym, hye⟩ := hxy
    obtain rfl : d = c := List.inj_on_of_nodup_map hids
      (Node.mem_nodes_of_mem_childNodes_of_mem hm (hchild hmk)) hcid
      (Option.some.inj (hxd.symm.trans hx))
    obtain rfl := NodeIndex.eq_of_mem_childNodes hids hm hn (hchild hmk) (hchild hk)
    exact ⟨result, hxe, hym, hye⟩
  have hchain := h.chain.right_of_append
  cases back with
  | nil =>
    have hnot := h.last a (by simp)
    exact absurd hac.2 hnot
  | cons d back =>
    obtain ⟨hpair, hrest⟩ := List.isChain_cons_cons.1 hchain
    obtain ⟨result', hevent, hdn, hde⟩ := hmade hac.1 (hpair (.inl hac.2))
    -- Another decision behind this one would have its condition in front of it, behind the last.
    have hnone : ∀ x ∈ back, ¬ isOfKind n.id .decision x := by
      intro x hx hxn
      obtain ⟨before, behind, rfl⟩ := List.append_of_mem hx
      have hxk : x.node = some n.id ∧ x.kind = .decision := by simpa [isOfKind] using hxn
      obtain ⟨y, hy⟩ : ∃ y, (d :: before).getLast? = some y :=
        Option.isSome_iff_exists.1 (by simp)
      rw [← List.cons_append] at hrest
      have hyx := (List.isChain_append.1 hrest).2.2 y hy x (by simp) (.inr hxk.2)
      obtain ⟨m, e, yes', no', result'', hm, hmk, hye, hyevent, hxm, -⟩ := hyx
      obtain rfl : m = n := List.inj_on_of_nodup_map hids hm hn
        (Option.some.inj (hxm.symm.trans hxk.1))
      obtain rfl : e = c := by
        rw [hk] at hmk
        cases hmk
        rfl
      refine hback y ?_ (by simp [isOfKind, hye, TraceEntry.kind, hyevent, TraceEvent.kind])
      have hmem := List.mem_of_getLast? hy
      rw [← List.cons_append]
      exact List.mem_append_left _ hmem
    have hlast : lastWhere (isOfKind n.id .decision) (front ++ a :: d :: back) = some d := by
      rw [List.append_cons, lastWhere_append_cons hnone, if_pos]
      simp [isOfKind, hdn, TraceEntry.kind, hde, TraceEvent.kind]
    rw [hlast] at hb
    obtain rfl := Option.some.inj hb
    rw [hevent] at hresult
    rw [hde] at htaken
    cases hresult
    cases htaken
    rfl

end Trace

/-! ## Evaluations -/

/-- Evaluations keep conditions and decisions together. -/
theorem Eval.paired_keptByRecordings {σ : Type} (ctx : EvalContext σ) (scope : Node → Prop) :
    KeptByRecordings ctx scope fun t _ _ => Trace.Paired scope t.toList where
  plain := by
    intro t total count ht r hr
    refine ht.perform r ?_
    generalize r.event.kind = kind at hr
    cases kind <;> first | rfl | cases hr
  decide ht _ _ _ _ hn hk value := ht.decide hn hk value
  activate ht _ _ _ _ _ _ := ht.perform (.activation _ _ _) rfl
  silent ht _ _ := ht

/-- Conditions and decisions stand together in the trace of an evaluation. -/
theorem Evaluator.run_paired {σ : Type} (e : Evaluator) (host : Host σ) (root : Node) (world : σ) :
    Trace.Paired (· ∈ root.nodes) (e.run host root world).evaluator.trace.toList := by
  have hempty : e.trace.reset.toList = [] := Window.toList_empty
  obtain ⟨-, -, hpaired, -⟩ := e.exists_count_run host root world
    (Eval.paired_keptByRecordings _ _) (by rw [hempty]; exact Trace.paired_nil _)
  exact hpaired

end Rulebook
