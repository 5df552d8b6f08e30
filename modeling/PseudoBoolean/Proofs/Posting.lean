import PseudoBoolean.Constraint.Posting
import PseudoBoolean.Proofs.Encoding
import PseudoBoolean.Proofs.Gains
import PseudoBoolean.Proofs.StandardContract

/-!
Posting adds a constraint, whatever way it takes: settled at once, by fixing literals, or by
propagators. The condition on stable points is that of the constraint's own sum, which no longer
shows for which store it was posted.
-/
namespace PseudoBoolean

namespace State
open PartialValuation Standard
variable {s t u : State Kind}

def countOf (control : Option Literal) (c : AtLeast.Blueprint Literal) : WeightedSum Literal :=
  .count control c.vars c.threshold

theorem gains_addStandard {b : AnyBlueprint Kind} (h : s.addStandard b = .ok t) :
    s.Gains t (Semantics.AsksFor b) := by
  obtain ⟨⟨id, u⟩, added, h⟩ := bind_eq_ok_iff.1 h
  rw [← pure_eq_ok_iff.1 h]
  exact gains_addPropagator added

theorem gains_postCount {c : AtLeast.Blueprint Literal} (h : s.postCount c = .ok t) :
    s.Gains t (countOf none c).StableAt := by
  unfold postCount at h
  by_cases failed : s.isFailed = true
  · rw [if_pos failed] at h
    rw [← pure_eq_ok_iff.1 h]
    exact gains_self_of_isFailed failed
  rw [if_neg failed] at h
  obtain ⟨⟨rest, n⟩, separated, h⟩ := bind_eq_ok_iff.1 h
  dsimp only at h
  have same : ∀ e, s.StableAt e →
      ((WeightedSum.count none rest (saturatingSub c.threshold n)).StableAt e ↔
        (countOf none c).StableAt e) :=
    fun e stable => (WeightedSum.count_alike_separate separated stable.2.1).stableAt.symm
  generalize saturatingSub c.threshold n = threshold at h same
  by_cases reached : threshold ≤ 0
  · rw [if_pos reached] at h
    rw [← pure_eq_ok_iff.1 h]
    apply (gains_remark s _).of_always
    intro e stable
    exact (same e stable).1 (WeightedSum.count_stableAt_of_reached reached)
  rw [if_neg reached] at h
  by_cases unreachable : (rest.length : Int) < threshold
  · rw [if_pos unreachable] at h
    rw [← pure_eq_ok_iff.1 h]
    apply Gains.after_remark
    apply gains_failAtPost
    intro e stable asked
    have refuted : (WeightedSum.count none rest threshold).Refuted e :=
      WeightedSum.count_refuted_of_unreachable unreachable
    have stuck := WeightedSum.control_false_of_refuted ((same e stable).2 asked) refuted
    cases stuck
  rw [if_neg unreachable] at h
  by_cases tight : (rest.length : Int) ≤ threshold
  · rw [if_pos tight] at h
    apply (gains_fixAll h).congr
    intro e stable
    rw [← same e stable]
    exact (WeightedSum.count_stableAt_of_tight (by omega)).symm
  · rw [if_neg tight] at h
    exact (gains_addStandard h).congr same

theorem gains_postImpliedCount {control : Literal} {c : AtLeast.Blueprint Literal}
    (h : s.postImpliedCount control c = .ok t) : s.Gains t (countOf (some control) c).StableAt := by
  unfold postImpliedCount at h
  by_cases failed : s.isFailed = true
  · rw [if_pos failed] at h
    rw [← pure_eq_ok_iff.1 h]
    exact gains_self_of_isFailed failed
  rw [if_neg failed] at h
  obtain ⟨value, got, h⟩ := bind_eq_ok_iff.1 h
  have known : s.domains.known.read control = value := Domains.known_of_read got
  cases value with
  | some b =>
    cases b with
    | false =>
      rw [← pure_eq_ok_iff.1 h]
      apply (gains_refl s).of_always
      intro e stable
      exact WeightedSum.stableAt_of_control_false (read_of_extends stable.2.1 known)
    | true =>
      apply (gains_postCount h).congr
      intro e stable
      exact (WeightedSum.stableAt_uncontrolled (p := countOf (some control) c)
        (read_of_extends stable.2.1 known)).symm
  | none =>
    obtain ⟨⟨rest, n⟩, separated, h⟩ := bind_eq_ok_iff.1 h
    dsimp only at h
    have same : ∀ e, s.StableAt e →
        ((WeightedSum.count (some control) rest (saturatingSub c.threshold n)).StableAt e ↔
          (countOf (some control) c).StableAt e) :=
      fun e stable => (WeightedSum.count_alike_separate separated stable.2.1).stableAt.symm
    generalize saturatingSub c.threshold n = threshold at h same
    by_cases unreachable : (rest.length : Int) < threshold
    · rw [if_pos unreachable] at h
      apply Gains.after_remark
      apply (gains_fixAtPost h).congr
      intro e stable
      rw [← same e stable]
      have refuted : (WeightedSum.count (some control) rest threshold).Refuted e :=
        WeightedSum.count_refuted_of_unreachable unreachable
      constructor
      · intro value
        exact WeightedSum.stableAt_of_control_false
          (p := .count (some control) rest threshold) value
      · intro stable
        exact WeightedSum.control_false_of_refuted stable refuted
    rw [if_neg unreachable] at h
    by_cases reached : threshold ≤ 0
    · rw [if_pos reached] at h
      rw [← pure_eq_ok_iff.1 h]
      apply (gains_remark s _).of_always
      intro e stable
      exact (same e stable).1 (WeightedSum.count_stableAt_of_reached reached)
    · rw [if_neg reached] at h
      exact (gains_addStandard h).congr same

def encodedStableAt (control : Option Literal) (e : PartialValuation) : Encoding → Prop
  | .counts all => ∀ c ∈ all, (countOf control c).StableAt e
  | .sum b => (WeightedSum.Blueprint.asSum { b with control }).StableAt e

theorem gains_postEncoding {control : Option Literal} {encoding : Encoding}
    (h : s.postEncoding control encoding = .ok t) :
    s.Gains t fun e => encodedStableAt control e encoding := by
  cases encoding with
  | counts all =>
    have h : List.foldlM _ s all = Except.ok t := h
    apply gains_foldlM (C := fun c => (countOf control c).StableAt) _ h
    intro c s t posted
    cases control with
    | none => exact gains_postCount posted
    | some b => exact gains_postImpliedCount posted
  | sum b => exact gains_addStandard h

theorem encoded_stableAt {n : NormalSum} {limits : Limits} {location : Location}
    {encoding : Encoding} {control : Option Literal} {e : PartialValuation}
    (strict : ¬ n.relation.IsStrict) (h : n.encode limits location = .ok encoding) :
    encodedStableAt control e encoding ↔ (n.asSum control).StableAt e := by
  unfold NormalSum.encode at h
  rcases n.route_cases with
    route | ⟨unit, ⟨route, relation⟩ | ⟨route, relation⟩ | ⟨route, relation⟩⟩
  · rw [route] at h
    obtain ⟨b, made, h⟩ := bind_eq_ok_iff.1 h
    rw [← pure_eq_ok_iff.1 h]
    exact NormalSum.weighted_stableAt strict made
  · rw [route] at h
    obtain ⟨b, made, h⟩ := bind_eq_ok_iff.1 h
    rw [← pure_eq_ok_iff.1 h, NormalSum.asSum, relation, ← NormalSum.atLeast_stableAt unit made]
    simp [encodedStableAt, countOf]
  · rw [route] at h
    obtain ⟨b, made, h⟩ := bind_eq_ok_iff.1 h
    rw [← pure_eq_ok_iff.1 h, NormalSum.asSum, relation, ← NormalSum.atMost_stableAt unit made]
    simp [encodedStableAt, countOf]
  · rw [route] at h
    obtain ⟨b, made, h⟩ := bind_eq_ok_iff.1 h
    obtain ⟨b', made', h⟩ := bind_eq_ok_iff.1 h
    rw [← pure_eq_ok_iff.1 h, NormalSum.asSum, relation, NormalSum.equal_stableAt,
      ← NormalSum.atLeast_stableAt unit made, ← NormalSum.atMost_stableAt unit made']
    simp [encodedStableAt, countOf]

theorem gains_refute {control : Option Literal} {p : WeightedSum DomainId}
    (violated : ∀ e, p.Refuted e) (same : p.control = control) (h : s.refute control = .ok t) :
    s.Gains t p.StableAt := by
  cases control with
  | none =>
    rw [← pure_eq_ok_iff.1 h]
    apply gains_failAtPost
    intro e _ stable
    have stuck := WeightedSum.control_false_of_refuted stable (violated e)
    simp [WeightedSum.controlValue, same] at stuck
  | some b =>
    apply (gains_fixAtPost h).congr
    intro e _
    have value : p.controlValue e = e.read b := by simp only [WeightedSum.controlValue, same]
    rw [← value]
    constructor
    · exact WeightedSum.stableAt_of_control_false
    · exact fun stable => WeightedSum.control_false_of_refuted stable (violated e)

theorem refuted_iff_of_no_terms {n : NormalSum} (none_ : n.terms = []) (control : Option Literal)
    (e : PartialValuation) : (n.asSum control).Refuted e ↔ ¬ n.HoldsEmpty := by
  have known := WeightedSum.refuted_iff_of_known (p := n.asSum control) (e := e)
    (v := fun _ => false) (by simp [NormalSum.asSum, none_])
  simpa [NormalSum.asSum, none_, NormalSum.HoldsEmpty] using known

theorem stableAt_of_holdsEmpty {n : NormalSum} (none_ : n.terms = []) (holds : n.HoldsEmpty)
    (control : Option Literal) (e : PartialValuation) : (n.asSum control).StableAt e := by
  apply Or.inr
  constructor
  · rw [refuted_iff_of_no_terms none_]
    exact fun violated => violated holds
  · intro _
    apply WeightedSum.pruned_of_known
    simp [NormalSum.asSum, none_]

/-- What the answer to a posting means: an accepted constraint is added, and a refusal leaves a
    state that is as good as before. -/
structure Responds (s t : State Kind) (r : Except ConstraintError Unit)
    (P : PartialValuation → Prop) : Prop where
  some_gain : ∃ Q, s.Gains t Q
  accepted : r = .ok () → s.Gains t P

theorem Responds.of_gains {P : PartialValuation → Prop} {r : Except ConstraintError Unit}
    (h : s.Gains t P) : s.Responds t r P := ⟨⟨P, h⟩, fun _ => h⟩

theorem Responds.of_error {P : PartialValuation → Prop} {e : ConstraintError}
    (h : s.Gains t fun _ => True) : s.Responds t (.error e) P :=
  ⟨⟨_, h⟩, fun accepted => by cases accepted⟩

theorem responds_enforce {control : Option Literal} {location : Location} {c : LinearConstraint}
    {r : Except ConstraintError Unit} (h : s.enforce control location c = .ok (r, t)) :
    s.Responds t r (c.asSum control).StableAt := by
  obtain ⟨normal, formed, h⟩ := bind_eq_ok_iff.1 h
  cases normal with
  | error e =>
    obtain ⟨rfl, rfl⟩ := pure_pair_eq_ok_iff.1 h
    exact .of_error (gains_refl s)
  | ok n =>
  obtain ⟨form, strict⟩ := NormalSum.ofConstraint_ok formed control
  have same : ∀ e, s.StableAt e →
      ((n.asSum control).StableAt e ↔ (c.asSum control).StableAt e) := by
    intro e stable
    rw [form]
    exact WeightedSum.restrict_stableAt stable.2.1
  dsimp only at h
  by_cases empty : n.terms.isEmpty = true
  · rw [if_pos empty] at h
    have none_ := List.isEmpty_iff.1 empty
    by_cases holds : n.HoldsEmpty
    · rw [if_pos holds] at h
      obtain ⟨-, rfl⟩ := pure_pair_eq_ok_iff.1 h
      apply Responds.of_gains
      apply (gains_refl s).of_always
      intro e stable
      exact (same e stable).1 (stableAt_of_holdsEmpty none_ holds control e)
    · rw [if_neg holds] at h
      obtain ⟨u, settled, h⟩ := bind_eq_ok_iff.1 h
      obtain ⟨-, rfl⟩ := pure_pair_eq_ok_iff.1 h
      apply Responds.of_gains
      apply Gains.congr _ same
      apply Gains.after_remark
      exact gains_refute (fun e => (refuted_iff_of_no_terms none_ control e).2 holds) rfl settled
  rw [if_neg empty] at h
  split at h
  · obtain ⟨rfl, rfl⟩ := pure_pair_eq_ok_iff.1 h
    exact .of_error (gains_refl s)
  split at h
  · obtain ⟨rfl, rfl⟩ := pure_pair_eq_ok_iff.1 h
    exact .of_error (gains_remark s _)
  · next encoding encoded =>
    obtain ⟨u, posted, h⟩ := bind_eq_ok_iff.1 h
    obtain ⟨-, rfl⟩ := pure_pair_eq_ok_iff.1 h
    apply Responds.of_gains
    apply Gains.after_remark
    apply (gains_postEncoding posted).congr
    intro e stable
    rw [encoded_stableAt strict encoded]
    exact same e stable

variable {c : LinearConstraint} {control : Literal} {r : Except ConstraintError Unit}

theorem responds_guarded {P : PartialValuation → Prop}
    {post : Checked (Except ConstraintError Unit × State Kind)}
    (h : (if let .error e := c.checkSizes then pure (.error e, s)
      else if s.isFailed then pure (.ok (), s) else post) = Except.ok (r, t))
    (responds : post = .ok (r, t) → s.Responds t r P) : s.Responds t r P := by
  split at h
  · obtain ⟨rfl, rfl⟩ := pure_pair_eq_ok_iff.1 h
    exact .of_error (gains_refl s)
  by_cases failed : s.isFailed = true
  · rw [if_pos failed] at h
    obtain ⟨-, rfl⟩ := pure_pair_eq_ok_iff.1 h
    exact .of_gains (gains_self_of_isFailed failed)
  · rw [if_neg failed] at h
    exact responds h

theorem responds_post (h : s.post c = .ok (r, t)) : s.Responds t r (c.asSum none).StableAt :=
  responds_guarded h responds_enforce

theorem responds_imply (h : s.imply control c = .ok (r, t)) :
    s.Responds t r (c.asSum (some control)).StableAt := by
  apply responds_guarded h
  intro h
  obtain ⟨value, got, h⟩ := bind_eq_ok_iff.1 h
  have known : s.domains.known.read control = value := Domains.known_of_read got
  cases value with
  | none => exact responds_enforce h
  | some b =>
    cases b with
    | false =>
      obtain ⟨-, rfl⟩ := pure_pair_eq_ok_iff.1 h
      apply Responds.of_gains
      apply (gains_remark s _).of_always
      intro e stable
      exact WeightedSum.stableAt_of_control_false (read_of_extends stable.2.1 known)
    | true =>
      have posted := responds_post h
      refine ⟨posted.some_gain, fun accepted => ?_⟩
      apply (posted.accepted accepted).congr
      intro e stable
      exact (WeightedSum.stableAt_uncontrolled (p := c.asSum (some control))
        (read_of_extends stable.2.1 known)).symm

theorem Responds.then {P Q : PartialValuation → Prop} (first : s.Responds u (.ok ()) P)
    (second : u.Responds t r Q) : s.Responds t r fun e => P e ∧ Q e := by
  have gained := first.accepted rfl
  obtain ⟨other, refused⟩ := second.some_gain
  exact ⟨⟨_, gained.trans refused⟩, fun accepted => gained.trans (second.accepted accepted)⟩

def reifiedStableAt (control : Literal) (c : LinearConstraint) (e : PartialValuation) : Prop :=
  (c.asSum (some control)).StableAt e ∧ (c.negation.asSum (some control.complement)).StableAt e

theorem responds_reify (h : s.reify control c = .ok (r, t)) :
    s.Responds t r (reifiedStableAt control c) := by
  obtain ⟨⟨first, u⟩, implied, h⟩ := bind_eq_ok_iff.1 h
  have implied := responds_imply implied
  cases first with
  | error e =>
    obtain ⟨rfl, rfl⟩ := pure_pair_eq_ok_iff.1 h
    exact ⟨implied.some_gain, fun accepted => by cases accepted⟩
  | ok _ => exact implied.then (responds_imply h)

theorem responds_postEach {one : State Kind → LinearConstraint →
      Checked (Except ConstraintError Unit × State Kind)}
    {C : LinearConstraint → PartialValuation → Prop}
    (responds : ∀ {c s t r}, one s c = .ok (r, t) → s.Responds t r (C c))
    {cs : List LinearConstraint} (h : s.postEach one cs = .ok (r, t)) :
    s.Responds t r fun e => ∀ c ∈ cs, C c e := by
  induction cs generalizing s with
  | nil =>
    obtain ⟨-, rfl⟩ := pure_pair_eq_ok_iff.1 h
    apply Responds.of_gains
    exact (gains_refl s).congr fun e _ => by simp
  | cons c rest ih =>
    obtain ⟨⟨first, u⟩, posted, h⟩ := bind_eq_ok_iff.1 h
    have posted := responds posted
    cases first with
    | error e =>
      obtain ⟨rfl, rfl⟩ := pure_pair_eq_ok_iff.1 h
      exact ⟨posted.some_gain, fun accepted => by cases accepted⟩
    | ok _ =>
      have both := posted.then (ih h)
      refine ⟨both.some_gain, fun accepted => ?_⟩
      exact (both.accepted accepted).congr fun e _ => by simp

theorem responds_postAll {cs : List LinearConstraint} (h : s.postAll cs = .ok (r, t)) :
    s.Responds t r fun e => ∀ c ∈ cs, (c.asSum none).StableAt e :=
  responds_postEach (C := fun c => (c.asSum none).StableAt) responds_post h

theorem responds_implyAll {cs : List LinearConstraint} (h : s.implyAll control cs = .ok (r, t)) :
    s.Responds t r fun e => ∀ c ∈ cs, (c.asSum (some control)).StableAt e :=
  responds_postEach (C := fun c => (c.asSum (some control)).StableAt) responds_imply h

end State
end PseudoBoolean
