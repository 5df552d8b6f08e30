import PseudoBoolean.Proofs.Standing
import PseudoBoolean.Proofs.Tracking

/-!
Every outcome of a standard propagator is justified. Retiring and handing over cannot be taken back,
so what they say is about all valuations that complete the store, not about the store alone.
-/
namespace PseudoBoolean
open PartialValuation

namespace Standard
variable {p q : AnyPropagator Kind} {b c : AnyBlueprint Kind} {s t : Domains}
  {self : PropagatorId}

theorem replaced_of_run (h : (p.propagate self).run s = .ok ((q, .ok (.replaceBy c)), t)) :
    (∃ (o : Over) (args : AtLeast.Blueprint o.Var), c = ⟨.atLeast o, args⟩) ∧ t = s := by
  rcases run_cases h with ⟨-, stays⟩ | ⟨counters, _, -, same, -, rfl⟩
  · exact absurd rfl (stays c)
  refine ⟨?_, rfl⟩
  obtain ⟨k, p⟩ := p
  obtain ⟨next, -, done⟩ := run_own h
  cases k with
  | atLeast o => exact absurd (Attempt.run_keeping_pair done).2 AtLeast.not_replaceBy
  | weightedSum o => exact absurd (Attempt.run_keeping_pair done).2 WeightedSum.not_replaceBy
  | impliedAtLeast o =>
    rcases run_cases_impliedAtLeast done with ⟨verdict, -, handed⟩ | ⟨i, -, -, never⟩
    · cases verdict <;> cases handed
      exact ⟨o, _, rfl⟩
    · cases never

/-- What a run of a propagator for the constraint `b` may come to, from the one store to the
    other. -/
structure Warranted (b : AnyBlueprint Kind) (before after : Domains)
    (outcome : Except Inconsistency (Verdict (AnyBlueprint Kind))) : Prop where
  fixed : ∀ verdict, outcome = .ok verdict →
    ∀ v : Valuation, v.Completes before → SatisfiedBy v b → v.Completes after
  subsumed : outcome = .ok .subsumed → ∀ v : Valuation, v.Completes after → SatisfiedBy v b
  replaced : ∀ c, outcome = .ok (.replaceBy c) → after = before ∧
    ∃ (o : Over) (args : AtLeast.Blueprint o.Var), c = ⟨.atLeast o, args⟩ ∧
      ∀ v : Valuation, v.Completes before →
        (SatisfiedBy v b ↔ args.threshold ≤ v.numTrue args.vars)
  stopped : ∀ i, outcome = .error i → ∀ v : Valuation, v.Completes before → ¬ SatisfiedBy v b

/-- A valuation satisfies the blueprint exactly if it is among the stable points. -/
theorem warranted_of_justified {outcome : Except Inconsistency (Verdict (AnyBlueprint Kind))}
    (stands : ∀ e, e.Extends s.known → (Semantics.StableAt p e ↔ Semantics.AsksFor b e))
    (h : (p.propagate self).run s = .ok ((q, outcome), t))
    (justified : Justified (Semantics.StableAt p) Semantics.AsksFor s.known t.known outcome) :
    Warranted b s t outcome := by
  have satisfied : ∀ v : Valuation, v.Completes s →
      (Semantics.StableAt p (ofTotal v) ↔ SatisfiedBy v b) := by
    intro v completes
    rw [stands _ (Domains.completes_iff.1 completes)]
    exact Operation.blueprint_asksFor_ofTotal b v
  have earlier : ∀ v : Valuation, v.Completes t → v.Completes s := fun v completes =>
    Domains.completes_iff.2
      (extends_trans (Domains.completes_iff.1 completes) ((p.propagate self).leadsTo h).extends)
  constructor
  case fixed =>
    rintro verdict rfl v completes holds
    have above := Domains.completes_iff.1 completes
    have stable := (satisfied v completes).2 holds
    apply Domains.completes_iff.2
    cases verdict with
    | atFixpoint => exact justified _ above stable
    | subsumed => exact justified.1 _ above stable
    | replaceBy c => exact justified.1 _ above stable
  case subsumed =>
    rintro rfl v completes
    apply (satisfied v (earlier v completes)).1
    exact justified.2 _ (Domains.completes_iff.1 completes)
  case replaced =>
    rintro c rfl
    obtain ⟨⟨o, args, rfl⟩, rfl⟩ := replaced_of_run h
    refine ⟨rfl, o, args, rfl, ?_⟩
    intro v completes
    rw [← satisfied v completes, justified.2 _ (Domains.completes_iff.1 completes)]
    exact Operation.blueprint_asksFor_ofTotal ⟨.atLeast o, args⟩ v
  case stopped =>
    rintro i rfl v completes holds
    exact justified _ (Domains.completes_iff.1 completes) ((satisfied v completes).2 holds)

end Standard

namespace State
open Standard
variable {s v : State Kind} {id : PropagatorId} {p : AnyPropagator Kind}

/-- Whenever the engine runs a propagator, the run comes to an outcome that the constraint warrants
    for which the propagator was built. -/
theorem warranted_of_aboutToRun (reachable : s.Reachable) (next : s.AboutToRun id p v) :
    ∃ b seen made, .created id b seen made ∈ v.entries ∧
      (∀ x ∈ v.entries, x.built? = some id → x = .created id b seen made) ∧
      ∃ q outcome t, (p.propagate id).run v.domains = .ok ((q, outcome), t) ∧
        Warranted b v.domains t outcome := by
  have attentive := kept_attentive.aboutToRun
    (kept_attentive.reachable attentive_new Attentive.newLiteral reachable) next
  obtain ⟨b, seen, made, member⟩ := attentive.present (isActive_of_get? next.active)
  obtain ⟨coherent, works⟩ := next.works reachable.wellFormed
  have standing := (reachable.standing next.start_sound).of_works works
  have intact := next.intact reachable.intact
  obtain ⟨q, outcome, t, ran, -⟩ := Progress.ran id intact.domains (intact.grounded next.active)
  refine ⟨b, seen, made, member, ?_, q, outcome, t, ran, ?_⟩
  · exact fun x entered built => attentive.single entered member built rfl
  · exact warranted_of_justified (standing.stands member next.active) ran
      (Contract.ran (coherent.attended next.active).consistent ran).justified

def asksToBeReplaced {κ : Type} [PropagatorKinds κ]
    (outcome : Except Inconsistency (Verdict (AnyBlueprint κ))) : Bool :=
  match outcome with
  | .ok (.replaceBy _) => true
  | _ => false

/-- An implied count over a repeated literal hands over once its control is true. -/
theorem warranted_of_aboutToRun_replaced :
    let count := ImpliedAtLeast.Blueprint.mk (.positive ⟨0⟩)
      [.positive ⟨1⟩, (Literal.positive ⟨2⟩).complement, Literal.positive ⟨1⟩] 2
    let ops : List (Operation Kind) := [.newLiteral, .newLiteral, .newLiteral,
      .addPropagator ⟨.impliedAtLeast .literals, count⟩, .assign (.positive ⟨0⟩) true]
    ∃ s v p, (State.new .standard).Accepts ops s ∧ s.AboutToRun ⟨0⟩ p v ∧
      ∃ q c t, (p.propagate ⟨0⟩).run v.domains = .ok ((q, .ok (.replaceBy c)), t) ∧
        ∃ b seen made, .created ⟨0⟩ b seen made ∈ v.entries ∧
          Warranted b v.domains t (.ok (.replaceBy c)) := by
  intro count ops
  obtain ⟨s, run, runs⟩ := accepts_of_reaches (State.new .standard) ops
    (fun s => s.runsFirst ⟨0⟩ fun v p =>
      ((p.propagate ⟨0⟩).run v.domains).toOption.any fun ((_, outcome), _) =>
        asksToBeReplaced outcome)
    (by decide +kernel)
  obtain ⟨v, p, next, checked⟩ := aboutToRun_of_runsFirst runs
  obtain ⟨⟨⟨q, outcome⟩, t⟩, ran, asks⟩ := exists_of_any checked
  obtain ⟨_, done, _⟩ := id run
  have reachable : s.Reachable := ⟨.standard, leadsTo_of_run done⟩
  obtain ⟨b, seen, made, member, -, _, _, _, again, warranted⟩ :=
    warranted_of_aboutToRun reachable next
  cases ran.symm.trans again
  cases outcome with
  | error i => cases asks
  | ok verdict =>
    cases verdict with
    | atFixpoint | subsumed => cases asks
    | replaceBy c => exact ⟨s, v, p, run, next, q, c, t, ran, b, seen, made, member, warranted⟩

end State
end PseudoBoolean
