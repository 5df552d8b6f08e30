import PseudoBoolean.Proofs.Runs

/-!
Runs are sound. A valuation that has everything that was asked for completes the store at each
moment of the run, and a store that propagation accepts satisfies every constraint that it decides.
-/
namespace PseudoBoolean

def LinearConstraint.FixedIn (c : LinearConstraint) (s : State Standard.Kind) : Prop :=
  ∀ l ∈ c.literals, ∃ b, s.value l = .ok (some b)

namespace State
open Standard PartialValuation
variable {s t u : State Kind} {ops : List (Operation Kind)} {limits : Limits}

/-- The operations of a run that were made while the state had not failed. -/
def facts (s : State Kind) : List (Operation Kind) → List (Operation Kind)
  | [] => []
  | op :: rest =>
    let later := match op.apply s with
      | .ok (_, t) => t.facts rest
      | .error _ => []
    if s.isFailed then later else op :: later

/-- A valuation that is a stable point stays one through a run whose facts it satisfies. -/
theorem stableAt_of_facts {v : Valuation} (wf : s.WellFormed) (run : s.Accepts ops t)
    (stable : s.StableAt (ofTotal v)) (satisfied : ∀ op ∈ s.facts ops, op.SatisfiedBy v) :
    t.StableAt (ofTotal v) := by
  induction ops generalizing s with
  | nil =>
    rw [← accepts_nil_iff.1 run]
    exact stable
  | cons op rest ih =>
    obtain ⟨a, u, first, kept, later⟩ := accepts_cons_iff.1 run
    have sound : ¬ s.isFailed = true := by
      intro failed
      obtain ⟨i, failure⟩ := failure_of_isFailed failed
      rw [stable.1] at failure
      cases failure
    have facts : s.facts (op :: rest) = op :: u.facts rest := by
      rw [State.facts, first, if_neg sound]
    rw [facts] at satisfied
    obtain ⟨wf, gained⟩ := (gains_apply first).2 kept wf
    apply ih wf later
    · apply (gained _).2
      exact ⟨stable, (op.asksFor_ofTotal v).2 (satisfied op List.mem_cons_self)⟩
    · intro other member
      exact satisfied other (List.mem_cons_of_mem op member)

theorem stableAt_new (limits : Limits) (e : PartialValuation) :
    (State.new (κ := Kind) limits).StableAt e := by
  refine ⟨rfl, ?_, ?_⟩
  · intro d b known
    simp [State.new, Domains.known, Table.get?] at known
  · intro id p active
    simp [State.new, Roster.get?, Table.get?] at active

/-- No run loses a solution: a valuation that satisfies all facts agrees with the store, and there
    is none once the state has failed. -/
theorem completes_of_facts (run : (State.new limits).Accepts ops t) :
    (∀ v : Valuation, (∀ op ∈ (State.new limits).facts ops, op.SatisfiedBy v) →
        v.Completes t.domains) ∧
      (t.isFailed = true →
        ¬ ∃ v : Valuation, ∀ op ∈ (State.new limits).facts ops, op.SatisfiedBy v) := by
  have stable := fun v : Valuation =>
    stableAt_of_facts (v := v) (wellFormed_new limits) run (stableAt_new limits _)
  constructor
  · intro v satisfied
    exact Domains.completes_iff.2 (stable v satisfied).2.1
  · intro failed solved
    obtain ⟨v, satisfied⟩ := solved
    obtain ⟨i, failure⟩ := failure_of_isFailed failed
    rw [(stable v satisfied).1] at failure
    cases failure

def clauseRun : List (Operation Kind) :=
  [.newLiteral, .newLiteral, .post ⟨[1, 1], [.positive ⟨0⟩, .positive ⟨1⟩], .atLeast, 1⟩,
    .assign (.positive ⟨0⟩) false, .propagate]

theorem completes_of_facts_clause :
    ∃ t, (State.new .standard).Accepts clauseRun t ∧ t.value (.positive ⟨1⟩) = .ok (some true) ∧
      ∀ v : Valuation, (∀ op ∈ (State.new .standard).facts clauseRun, op.SatisfiedBy v) →
        v.Completes t.domains := by
  obtain ⟨t, run, value⟩ := accepts_of_reaches (State.new .standard) clauseRun
    (fun t => decide (t.value (.positive ⟨1⟩) = .ok (some true))) (by decide +kernel)
  exact ⟨t, run, of_decide_eq_true value, (completes_of_facts run).1⟩

theorem asksFor_of_propagate (wf : s.WellFormed) (run : s.Accepts ops u)
    (propagated : u.propagate = .ok (.ok (), t)) :
    s.StableAt t.domains.known ∧ ∀ op ∈ ops, op.AsksFor t.domains.known := by
  obtain ⟨wf, gained⟩ := gains_run run wf
  have stable := (atFixpoint_of_propagate wf propagated).stableAt
  obtain ⟨-, same⟩ := gains_propagate propagated wf
  exact (gained _).1 ((same _).1 stable).1

section verified
variable {c : LinearConstraint} {control : Literal} {v : Valuation}

theorem read_of_fixedIn (fixed : c.FixedIn t) (completes : v.Completes t.domains) :
    ∀ l ∈ c.literals, t.domains.known.read l = some (v.eval l) := by
  intro l member
  obtain ⟨b, value⟩ := fixed l member
  rw [Domains.known_of_read value, completes.eval_of_read value]

theorem control_false_of_violated {control : Option Literal} (fixed : c.FixedIn t)
    (completes : v.Completes t.domains) (stable : (c.asSum control).StableAt t.domains.known)
    (violated : ¬ c.SatisfiedBy v) : ∃ b, control = some b ∧ t.value b = .ok (some false) := by
  have refuted : (c.asSum control).Refuted t.domains.known :=
    (LinearConstraint.asSum_refuted_iff (read_of_fixedIn fixed completes)).2 violated
  have value := WeightedSum.control_false_of_refuted stable refuted
  cases control with
  | none => cases value
  | some b => exact ⟨b, rfl, Domains.read_of_known value⟩

end verified

/-- No false solution is accepted: when a propagation succeeds, every constraint whose literals all
    have a value holds there as it was posted. -/
theorem verified_of_propagate (run : (State.new limits).Accepts ops s)
    (propagated : s.propagate = .ok (.ok (), t)) {v : Valuation}
    (completes : v.Completes t.domains) :
    (∀ c, .post c ∈ ops → c.FixedIn t → c.SatisfiedBy v) ∧
      (∀ control c, .imply control c ∈ ops → c.FixedIn t → ¬ c.SatisfiedBy v →
        t.value control = .ok (some false)) ∧
      (∀ control c, .reify control c ∈ ops → c.FixedIn t →
        t.value control = .ok (some (decide (c.SatisfiedBy v)))) := by
  obtain ⟨-, asked⟩ := asksFor_of_propagate (wellFormed_new limits) run propagated
  refine ⟨?posted, ?implied, ?reified⟩
  case posted =>
    intro c member fixed
    by_contra violated
    obtain ⟨b, never, -⟩ := control_false_of_violated fixed completes (asked _ member) violated
    cases never
  case implied =>
    intro control c member fixed violated
    obtain ⟨b, same, value⟩ := control_false_of_violated fixed completes (asked _ member) violated
    cases same
    exact value
  case reified =>
    intro control c member fixed
    obtain ⟨stable, stableNegation⟩ := asked _ member
    by_cases satisfied : c.SatisfiedBy v
    · have violated : ¬ c.negation.SatisfiedBy v := by
        rw [c.satisfiedBy_negation]
        exact fun opposite => opposite satisfied
      obtain ⟨b, same, value⟩ := control_false_of_violated (c := c.negation) fixed completes
        stableNegation violated
      cases same
      rw [decide_eq_true satisfied]
      exact Domains.read_of_known (read_complement_eq_some_iff.1 (Domains.known_of_read value))
    · obtain ⟨b, same, value⟩ := control_false_of_violated fixed completes stable satisfied
      cases same
      rw [decide_eq_false satisfied]
      exact value

/-- Two literals are equal, and one of them is true. One control asks for at most one of them, and
    the other one says whether both are true. -/
def equalRun : List (Operation Kind) :=
  [.newLiteral, .newLiteral, .newLiteral, .newLiteral, .post (overPair (-1) .equal 0),
    .imply (.positive ⟨2⟩) (overPair 1 .atMost 1), .reify (.positive ⟨3⟩) (overPair 1 .atLeast 2),
    .assign (.positive ⟨0⟩) true]
where
  overPair (w : Int) (relation : Relation) (rhs : Int) : LinearConstraint :=
    ⟨[1, w], [.positive ⟨0⟩, .positive ⟨1⟩], relation, rhs⟩

open equalRun in
theorem verified_of_propagate_equal :
    ∃ s t, (State.new .standard).Accepts equalRun s ∧ s.propagate = .ok (.ok (), t) ∧
      ∀ v : Valuation, v.Completes t.domains → (overPair (-1) .equal 0).SatisfiedBy v ∧
        (¬ (overPair 1 .atMost 1).SatisfiedBy v → t.value (.positive ⟨2⟩) = .ok (some false)) ∧
        t.value (.positive ⟨3⟩) = .ok (some (decide ((overPair 1 .atLeast 2).SatisfiedBy v))) := by
  obtain ⟨s, run, settles⟩ := accepts_of_reaches (State.new .standard) equalRun
    (fun s => s.settles fun t => decide
      (t.value (.positive ⟨0⟩) = .ok (some true) ∧ t.value (.positive ⟨1⟩) = .ok (some true)))
    (by decide +kernel)
  obtain ⟨t, propagated, values⟩ := propagate_of_settles s _ settles
  have ⟨first, second⟩ := of_decide_eq_true values
  have fixed : ∀ w relation rhs, (overPair w relation rhs).FixedIn t := by
    intro w relation rhs l member
    rcases List.mem_cons.1 member with rfl | member
    · exact ⟨true, first⟩
    · rw [List.mem_singleton.1 member]
      exact ⟨true, second⟩
  refine ⟨s, t, run, propagated, ?_⟩
  intro v completes
  obtain ⟨posted, implied, reified⟩ := verified_of_propagate run propagated completes
  refine ⟨?_, ?_, ?_⟩
  · exact posted _ (by simp [equalRun]) (fixed _ _ _)
  · exact implied _ _ (by simp [equalRun]) (fixed _ _ _)
  · exact reified _ _ (by simp [equalRun]) (fixed _ _ _)

end State
end PseudoBoolean
