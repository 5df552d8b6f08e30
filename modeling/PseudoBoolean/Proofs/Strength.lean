import PseudoBoolean.Proofs.Completion
import PseudoBoolean.Proofs.Soundness

/-!
The strength of propagation. When a propagation succeeds, each inequality that was posted still has
a solution, and one for either value of each of its literals without a value. So has an equation
whose weights were units when it was posted.
-/
namespace PseudoBoolean

namespace Residue
open PartialValuation

def weightIn (d : DomainId) (w : Int) (e : DomainId) : Int := if e = d then w else 0

def addedTo (d : DomainId) (w : Int) (l : Literal) : Int :=
  if l.domain = d then (if l.negated then -w else w) else 0

theorem weight_merge (d : DomainId) (r : Residue) (terms : List (Int × Literal)) :
    total (weightIn d) (r.merge terms).terms =
      total (weightIn d) r.terms + total (addedTo d) terms := by
  have additive : ∀ v w e, weightIn d (v + w) e = weightIn d v e + weightIn d w e := by
    intro v w e
    unfold weightIn
    split <;> omega
  induction terms generalizing r with
  | nil => simp [merge, total]
  | cons t rest ih =>
    obtain ⟨w, l⟩ := t
    have step : total (weightIn d) (r.add w l).terms =
        total (weightIn d) r.terms + addedTo d w l := by
      unfold add addedTo
      split <;> rw [total_addWeight additive] <;> rfl
    rw [merge, ih, step, total]
    omega

end Residue

namespace LinearConstraint
open PartialValuation
variable {c : LinearConstraint} {control : Option Literal} {e known : PartialValuation}

def weightOn (c : LinearConstraint) (d : DomainId) : Int :=
  total (Residue.addedTo d) (c.coefficients.zip c.literals)

theorem eq_weightOn_of_mem_merge {w : Int} {d : DomainId}
    (member : (w, d) ∈ (Residue.merge { rhs := c.rhs } (c.coefficients.zip c.literals)).terms) :
    w = c.weightOn d := by
  have merged := Residue.nodup_merge (r := { rhs := c.rhs }) List.nodup_nil
    (c.coefficients.zip c.literals)
  have single := total_change (f := Residue.weightIn d) (g := fun _ _ => 0) merged
    member fun t _ apart => if_neg apart
  rw [Residue.weight_merge, total_zero, Residue.weightIn, if_pos rfl] at single
  simp only [total, weightOn] at single ⊢
  omega

theorem eq_weightOn_of_mem {w : Int} {d : DomainId} (member : (w, d) ∈ (c.asSum control).terms) :
    w = c.weightOn d := eq_weightOn_of_mem_merge (List.mem_filter.1 member).1

/-- The weights of an equation are units on the domains without a value. -/
def UnitWhere (c : LinearConstraint) (known : PartialValuation) : Prop :=
  c.relation = .equal →
    ∀ d, known d = none → c.weightOn d = 0 ∨ c.weightOn d = 1 ∨ c.weightOn d = -1

theorem gapless_restrict (unit : c.UnitWhere known) :
    ((c.asSum control).restrict known).Gapless := by
  refine ⟨Relation.not_isStrict_nonStrict _ _, ?merged, ?nonzero, ?unit⟩
  case merged => exact (c.nodup_asSum control).sublist (List.filter_sublist.map _)
  case nonzero =>
    intro t member
    have kept := (List.mem_filter.1 (mem_free_iff.1 member).1).2
    simpa using kept
  case unit =>
    intro relation t member
    obtain ⟨inner, free⟩ := mem_free_iff.1 member
    have nonzero : t.1 ≠ 0 := by simpa using (List.mem_filter.1 inner).2
    have equation : c.relation = .equal := by
      cases same : c.relation <;>
        simp [WeightedSum.restrict, asSum, same, Relation.nonStrict] at relation ⊢
    have weight := eq_weightOn_of_mem inner
    rcases unit equation t.2 ((read_domain known t.2).symm.trans free) with zero | unit
    · exact absurd (weight.trans zero) nonzero
    · rw [weight]
      exact unit

theorem exists_satisfiedBy (unit : c.UnitWhere known) (above : e.Extends known)
    (possible : ¬ (c.asSum none).Refuted e) :
    ∃ v : Valuation, (ofTotal v).Extends e ∧ c.SatisfiedBy v := by
  have restricted : ¬ ((c.asSum none).restrict known).Refuted e := by
    rw [WeightedSum.restrict_refuted above]
    exact possible
  obtain ⟨v, higher, holds⟩ := WeightedSum.exists_satisfying (gapless_restrict unit) restricted
  have stable := (WeightedSum.restrict_stableAt (extends_trans higher above)).1
    (WeightedSum.stableAt_ofTotal.2 fun _ => holds)
  exact ⟨v, higher, asSum_stableAt_ofTotal.1 stable (by simp)⟩

theorem exists_satisfiedBy_of_pruned (unit : c.UnitWhere known) (above : e.Extends known)
    (possible : ¬ (c.asSum none).Refuted e) (pruned : (c.asSum none).Pruned e) {d : DomainId}
    (free : e d = none) (b : Bool) :
    ∃ v : Valuation, (ofTotal v).Extends e ∧ v d = b ∧ c.SatisfiedBy v := by
  have learnt := extends_learn (b := b) free
  have restricted : ¬ ((c.asSum none).restrict known).Refuted (e.learn d b) := by
    apply WeightedSum.not_refuted_learn (gapless_restrict unit) _ _ free b
    · rw [WeightedSum.restrict_refuted above]
      exact possible
    · rw [WeightedSum.restrict_pruned above]
      exact pruned
  rw [WeightedSum.restrict_refuted (extends_trans learnt above)] at restricted
  obtain ⟨v, higher, satisfied⟩ := exists_satisfiedBy unit (extends_trans learnt above) restricted
  have both := (extends_learn_iff free).1 higher
  exact ⟨v, both.1, Option.some.inj both.2, satisfied⟩

/-- A constraint has a solution that completes the store, and for each of its literals without a
    value one with either value. -/
structure Supported (c : LinearConstraint) (s : Domains) : Prop where
  solution : ∃ v : Valuation, v.Completes s ∧ c.SatisfiedBy v
  either : ∀ l ∈ c.literals, s.read l = .ok none → ∀ b, ∃ v : Valuation,
    v.Completes s ∧ v.eval l = b ∧ c.SatisfiedBy v

theorem supported_of_stableAt {s : Domains} (unit : c.UnitWhere known)
    (above : s.known.Extends known) (possible : ¬ (c.asSum none).Refuted s.known)
    (pruned : (c.asSum none).Pruned s.known) : c.Supported s := by
  constructor
  · obtain ⟨v, completes, satisfied⟩ := exists_satisfiedBy unit above possible
    exact ⟨v, Domains.completes_iff.2 completes, satisfied⟩
  · intro l _ unread b
    have free : s.known l.domain = none := read_eq_none_iff.1 (Domains.known_of_read unread)
    obtain ⟨v, completes, value, satisfied⟩ :=
      exists_satisfiedBy_of_pruned unit above possible pruned free (l.view b)
    refine ⟨v, Domains.completes_iff.2 completes, ?_, satisfied⟩
    change l.view (v l.domain) = b
    rw [value, l.view_view]

end LinearConstraint

namespace State
open Standard PartialValuation
variable {s t u : State Kind} {before after : List (Operation Kind)} {limits : Limits}

/-- When a propagation succeeds, every constraint that was posted is supported, also one posted
    under a control that is true by now; under a control without a value it still has a solution.
    The weights of an equation have to be units on the domains without a value at the posting. -/
theorem supported_of_propagate {op : Operation Kind} {c : LinearConstraint}
    (first : (State.new limits).Accepts before s) (rest : s.Accepts (op :: after) u)
    (propagated : u.propagate = .ok (.ok (), t)) (unit : c.UnitWhere s.domains.known) :
    (op = .post c → c.Supported t.domains) ∧
      ∀ control, op = .imply control c →
        (t.value control = .ok (some true) → c.Supported t.domains) ∧
          (t.value control = .ok none →
            ∃ v : Valuation, v.Completes t.domains ∧ c.SatisfiedBy v) := by
  have wf := (gains_run first (wellFormed_new limits)).1
  obtain ⟨stable, asked⟩ := asksFor_of_propagate wf rest propagated
  have above : t.domains.known.Extends s.domains.known := stable.2.1
  have asked := asked op List.mem_cons_self
  constructor
  · intro same
    rw [same] at asked
    have both := (WeightedSum.stableAt_of_control_true rfl).1 asked
    exact LinearConstraint.supported_of_stableAt unit above both.1 both.2
  · intro control same
    rw [same] at asked
    constructor
    · intro value
      have required : (c.asSum (some control)).controlValue t.domains.known = some true :=
        Domains.known_of_read value
      have both := (WeightedSum.stableAt_of_control_true required).1 asked
      exact LinearConstraint.supported_of_stableAt unit above both.1 both.2
    · intro value
      have open_ : (c.asSum (some control)).controlValue t.domains.known = none :=
        Domains.known_of_read value
      have possible := (WeightedSum.stableAt_of_control_free open_).1 asked
      obtain ⟨v, completes, satisfied⟩ := LinearConstraint.exists_satisfiedBy unit above possible
      exact ⟨v, Domains.completes_iff.2 completes, satisfied⟩

/-- One of three literals, and not the first: either of the other two may be the one. -/
theorem supported_of_propagate_one :
    let one : LinearConstraint :=
      ⟨[1, 1, 1], [.positive ⟨0⟩, .positive ⟨1⟩, .positive ⟨2⟩], .equal, 1⟩
    ∃ s u t : State Kind, s.Accepts [.post one, .assign (.positive ⟨0⟩) false] u ∧
      u.propagate = .ok (.ok (), t) ∧ t.value (.positive ⟨1⟩) = .ok none ∧
      ∀ b, ∃ v : Valuation, v.Completes t.domains ∧ v ⟨1⟩ = b ∧ one.SatisfiedBy v := by
  intro one
  obtain ⟨s, created, posted⟩ := accepts_of_reaches (State.new .standard)
    [.newLiteral, .newLiteral, .newLiteral]
    (fun s => s.reaches [.post one, .assign (.positive ⟨0⟩) false]
      fun u => u.settles fun t => decide (t.value (.positive ⟨1⟩) = .ok none))
    (by decide +kernel)
  obtain ⟨u, run, settles⟩ := accepts_of_reaches s _ _ posted
  obtain ⟨t, propagated, free⟩ := propagate_of_settles u _ settles
  have free := of_decide_eq_true free
  have unit : one.UnitWhere s.domains.known := by
    intro _ d _
    obtain ⟨i⟩ := d
    simp only [LinearConstraint.weightOn, one, List.zip_cons_cons, List.zip_nil_left, total,
      Residue.addedTo, Literal.positive, DomainId.mk.injEq]
    simp only [Bool.false_eq_true, if_false]
    omega
  have supported := (supported_of_propagate created run propagated unit).1 rfl
  refine ⟨s, u, t, run, propagated, free, ?_⟩
  intro b
  obtain ⟨v, completes, value, satisfied⟩ := supported.either (.positive ⟨1⟩) (by simp [one]) free b
  exact ⟨v, completes, (v.eval_positive ⟨1⟩).symm.trans value, satisfied⟩

end State
end PseudoBoolean
