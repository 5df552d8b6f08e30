import PseudoBoolean.Proofs.Evolution
import PseudoBoolean.Proofs.Runs
import PseudoBoolean.Proofs.StandardProgress

/-!
No propagator is left behind. A standard propagator without a reason to run would fix nothing if it
ran, and would not retire either; so when a propagation has succeeded, running any of the active
propagators again changes nothing.
-/
namespace PseudoBoolean
open PartialValuation Attempt
variable {ν : Type} [Variable ν] {s t : Domains} {self : PropagatorId}

theorem AtLeast.idle {β : Type} {p : AtLeast ν} {r : Except Inconsistency (Verdict β)}
    (notReached : ¬ p.IsReached) (loose : ¬ p.IsTight)
    (h : exec (p.propagate self) s = .ok (r, t)) : r = .ok .atFixpoint ∧ t = s := by
  cases runsTo_of_exec h with
  | reached reached => exact absurd reached notReached
  | conflict unreachable => exact absurd (Int.le_of_lt unreachable) loose
  | tight _ tight => exact absurd tight loose
  | waiting => exact ⟨rfl, rfl⟩

omit [Variable ν] in
theorem ImpliedAtLeast.idle {p : ImpliedAtLeast ν}
    {r : Except Inconsistency (ImpliedAtLeast ν × Verdict (AtLeast.Blueprint ν))}
    (notReached : ¬ p.IsReached) (reachable : ¬ p.IsUnreachable)
    (control : s.known.read p.control = none) (h : exec p.propagate s = .ok (r, t)) :
    r = .ok (p, .atFixpoint) ∧ t = s := by
  cases runsTo_of_exec h with
  | vacuous value | replaced value =>
    rw [control] at value
    cases value
  | reached reached => exact absurd reached notReached
  | rejected unreachable => exact absurd unreachable reachable
  | waiting => exact ⟨rfl, rfl⟩

theorem WeightedSum.idle {β : Type} {p : WeightedSum ν} {r : Except Inconsistency (Verdict β)}
    (calm : p.Calm s.known) (h : exec (p.propagate self) s = .ok (r, t)) :
    r = .ok .atFixpoint ∧ t = s := by
  cases runsTo_of_exec h with
  | vacuous value => exact absurd value calm.required
  | entailed holds => exact absurd holds calm.undecided
  | rejected _ refuted | conflict _ refuted => exact absurd refuted calm.possible
  | waiting => exact ⟨rfl, rfl⟩
  | pruned value _ possible required =>
    obtain ⟨rfl, below⟩ := prune_met (extends_refl _) possible (calm.pruned value) required
    exact ⟨rfl, (leadsTo_of_exec required).eq_of_extends below⟩

namespace Standard
open Semantics

theorem idle_of_settled {p : AnyPropagator Kind} (self : PropagatorId) (tracked : s.Tracked)
    (grounded : Grounded p s) (settled : Settled p s.known fun _ => False) :
    (p.propagate self).run s = .ok ((p, .ok .atFixpoint), s) := by
  obtain ⟨q, outcome, t, ran, -⟩ := Progress.ran self tracked grounded
  suffices idle : q = p ∧ outcome = .ok .atFixpoint ∧ t = s by
    obtain ⟨rfl, rfl, rfl⟩ := idle
    exact ran
  obtain ⟨k, p⟩ := p
  obtain ⟨next, rfl, done⟩ := run_own ran
  cases k with
  | atLeast o =>
    obtain ⟨rfl, attempted⟩ := run_keeping_pair done
    exact ⟨rfl, AtLeast.idle settled.1 settled.2 attempted⟩
  | weightedSum o =>
    obtain ⟨rfl, attempted⟩ := run_keeping_pair done
    rcases settled with calm | ⟨_, _, _, fresh⟩
    · exact ⟨rfl, WeightedSum.idle calm attempted⟩
    · exact absurd fresh id
  | impliedAtLeast o =>
    have settled : ImpliedAtLeast.Settled p s.known fun _ => False := settled
    have control := settled.control.resolve_right id
    rcases run_cases_impliedAtLeast done with ⟨verdict, attempted, rfl⟩ | ⟨i, attempted, rfl, rfl⟩
    · obtain ⟨same, rfl⟩ :=
        ImpliedAtLeast.idle settled.notReached settled.reachable control attempted
      cases same
      exact ⟨rfl, rfl, rfl⟩
    · obtain ⟨stopped, -⟩ :=
        ImpliedAtLeast.idle settled.notReached settled.reachable control attempted
      cases stopped

end Standard

namespace State
open Standard
variable {s t : State Kind}

/-- After a propagation that succeeds nothing is pending, nobody is queued, and no active propagator
    would do anything. -/
theorem quiescent_of_propagate (reachable : s.Reachable) (h : s.propagate = .ok (.ok (), t)) :
    t.domains.pending.events = [] ∧ t.agenda.waiting = [] ∧ t.agenda.numQueued = 0 ∧
      ∀ id p, t.roster.get? id = some p →
        (p.propagate id).run t.domains = .ok ((p, .ok .atFixpoint), t.domains) := by
  have fixpoint := atFixpoint_of_propagate reachable.wellFormed h
  have intact := (intact_of_propagate reachable.intact h).1
  have nobody : t.agenda.waiting = [] := by
    apply List.eq_nil_iff_forall_not_mem.2
    intro id member
    have queued := intact.agenda.flagged member
    rw [fixpoint.nobody id] at queued
    cases queued
  refine ⟨fixpoint.quiet, nobody, ?_, ?_⟩
  · rw [intact.agenda.numQueued, nobody]
    rfl
  · intro id p active
    exact idle_of_settled id intact.domains (intact.grounded active) (fixpoint.settled active).2

/-- One propagator of each kind; the implied count is replaced in the propagation. -/
theorem quiescent_of_propagate_replaced :
    let ops : List (Operation Kind) := [.newLiteral, .newLiteral, .newLiteral, .newLiteral,
      .addPropagator ⟨.impliedAtLeast .literals, ImpliedAtLeast.Blueprint.mk (.positive ⟨0⟩)
        [.positive ⟨1⟩, .positive ⟨2⟩, (Literal.positive ⟨3⟩).complement] 2⟩,
      .addPropagator ⟨.atLeast .domains, AtLeast.Blueprint.mk [⟨1⟩, ⟨2⟩, ⟨2⟩] 1⟩,
      .addPropagator ⟨.weightedSum .domains, WeightedSum.Blueprint.mk [2, -1, 1] [⟨1⟩, ⟨2⟩, ⟨3⟩]
        .notEqual 1 none⟩,
      .assign (.positive ⟨0⟩) true]
    ∃ s t, (State.new .standard).Accepts ops s ∧ s.propagate = .ok (.ok (), t) ∧
      t.activeNames = ["GreaterOrEqual", "BooleanLinear", "GreaterOrEqual"] ∧
      ∀ id p, t.roster.get? id = some p →
        (p.propagate id).run t.domains = .ok ((p, .ok .atFixpoint), t.domains) := by
  intro ops
  obtain ⟨s, run, settles⟩ := accepts_of_reaches (State.new .standard) ops
    (fun s => s.settles fun t => decide
      (t.activeNames = ["GreaterOrEqual", "BooleanLinear", "GreaterOrEqual"]))
    (by decide +kernel)
  obtain ⟨t, propagated, names⟩ := propagate_of_settles s _ settles
  have ⟨_, ran, _⟩ := run
  have reachable : s.Reachable := ⟨.standard, leadsTo_of_run ran⟩
  exact ⟨s, t, run, propagated, of_decide_eq_true names,
    (quiescent_of_propagate reachable propagated).2.2.2⟩

end State
end PseudoBoolean
