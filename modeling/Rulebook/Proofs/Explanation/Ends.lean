import Rulebook.Evaluation.Run
import Rulebook.Proofs.Node.Ownership

/-!
# Explanations that come to an end

An evaluation that has found its value explains it if the settings ask for an explanation. All that
may go on for ever then is a climb upwards from a consequence that did not run. It ends if
identities are distinct, and there is none if the question is another one.

## Main results

* `Explanation.ends_of_nodup`: every question about a tree of distinct identities is answered
* `Evaluator.returns`: which evaluations return
* `Evaluator.not_returns_of_owner?_eq_self`: one that does not
-/

namespace Rulebook

namespace Explanation

variable {root : Node} {trace : Trace}

theorem ends_of_nodup (hids : (root.nodes.map Node.id).Nodup) (question : Question) :
    Ends root trace question := by
  cases question with
  | why => trivial
  | whyNot action => exact fun target _ _ => NodeIndex.ends_ofNode hids target.id

theorem ends_of_ne {question : Question} (h : ∀ action, question ≠ .whyNot action) :
    Ends root trace question := by
  cases question with
  | why => trivial
  | whyNot action => exact absurd rfl (h action)

end Explanation

namespace Evaluator

variable {σ : Type} {e : Evaluator} {host : Host σ} {root : Node} {world : σ}

/-- An evaluation returns if identities are distinct, or if it is not asked why an action was not
performed. -/
theorem returns (h : (root.nodes.map Node.id).Nodup ∨
    ∀ action, e.settings.question ≠ some (.whyNot action)) : e.Returns host root world := by
  intro question hquestion
  rcases h with hids | hother
  · exact Explanation.ends_of_nodup hids question
  · refine Explanation.ends_of_ne fun action heq => hother action ?_
    rw [hquestion, heq]

/-- An evaluation does not return that is asked about a node that did not run and is its own
owner. -/
theorem not_returns_of_owner?_eq_self {action : String} {target : Node}
    (hquestion : e.settings.question = some (.whyNot action))
    (htarget : root.findConsequence? action = some target)
    (hnone : (e.run host root world).evaluator.trace.lastOfKind? target.id .consequence = none)
    (hn : ((NodeIndex.ofNode root).get? target.id).isSome)
    (howner : (NodeIndex.ofNode root).owner? target.id = some target.id) :
    ¬ e.Returns host root world := fun h =>
  NodeIndex.not_ends_of_owner?_eq_self hn howner (h _ hquestion target htarget hnone)

end Evaluator

end Rulebook
