import Mathlib.Algebra.Ring.Int.Defs
import PseudoBoolean.Proofs.Encoding

/-!
Sums seen from the other side. To bound a sum from above is to bound the sum with opposite weights
from below, and a constraint on some literals is one on their complements; the normal form takes the
one into the other, and the encodings that come out ask for the same.
-/
namespace PseudoBoolean
open PartialValuation

namespace Relation

def mirrored : Relation → Relation
  | equal => equal
  | notEqual => notEqual
  | atMost => atLeast
  | less => greater
  | atLeast => atMost
  | greater => less

theorem holdsThroughout_mirrored (r : Relation) (lower upper b : Int) :
    r.mirrored.HoldsThroughout (-upper) (-lower) (-b) ↔ r.HoldsThroughout lower upper b := by
  cases r <;> simp only [mirrored, HoldsThroughout] <;> omega

theorem negation_mirrored (r : Relation) : r.mirrored.negation = r.negation.mirrored := by
  cases r <;> rfl

theorem nonStrict_mirrored (r : Relation) (b : Int) :
    r.mirrored.nonStrict (-b) = ((r.nonStrict b).1.mirrored, -(r.nonStrict b).2) := by
  cases r <;> simp only [mirrored, nonStrict, Prod.mk.injEq, true_and] <;> omega

end Relation

def negated {ν : Type} (terms : List (Int × ν)) : List (Int × ν) := terms.map fun t => (-t.1, t.2)

namespace PartialValuation
variable {ν : Type} {e : PartialValuation}

theorem total_negated {f g : Int → ν → Int} (opposite : ∀ w x, f (-w) x = -g w x)
    (terms : List (Int × ν)) : total f (negated terms) = -total g terms := by
  induction terms with
  | nil => rfl
  | cons t rest ih =>
    unfold negated at ih ⊢
    rw [List.map_cons, total, total, ih, opposite, Int.neg_add]

variable [Variable ν]

theorem least_negated (e : PartialValuation) (terms : List (Int × ν)) :
    e.least (negated terms) = -e.greatest terms := by
  apply total_negated
  intro w x
  unfold leastTerm greatestTerm
  split <;> omega

theorem greatest_negated (e : PartialValuation) (terms : List (Int × ν)) :
    e.greatest (negated terms) = -e.least terms := by
  apply total_negated
  intro w x
  unfold leastTerm greatestTerm
  split <;> omega

theorem free_negated (e : PartialValuation) (terms : List (Int × ν)) :
    e.free (negated terms) = negated (e.free terms) := by
  unfold free negated
  rw [List.filter_map]
  rfl

theorem settled_negated (e : PartialValuation) (terms : List (Int × ν)) :
    e.settled (negated terms) = -e.settled terms := by
  rw [settled_eq_total, settled_eq_total]
  apply total_negated
  intro w x
  unfold settledTerm
  split <;> omega

theorem slackAbove_negated {terms : List (Int × ν)} {rhs : Int} :
    e.SlackAbove (negated terms) (-rhs) ↔ e.SlackBelow terms rhs := by
  unfold SlackAbove SlackBelow
  rw [free_negated, least_negated, negated, List.forall_mem_map]
  refine forall₂_congr fun t _ => ?_
  omega

theorem slackBelow_negated {terms : List (Int × ν)} {rhs : Int} :
    e.SlackBelow (negated terms) (-rhs) ↔ e.SlackAbove terms rhs := by
  unfold SlackAbove SlackBelow
  rw [free_negated, greatest_negated, negated, List.forall_mem_map]
  refine forall₂_congr fun t _ => ?_
  omega

theorem avoids_iff_settled {terms : List (Int × ν)} {rhs : Int} : e.Avoids terms rhs ↔
    ∀ w x, e.free terms = [(w, x)] → e.settled terms ≠ rhs ∧ e.settled terms + w ≠ rhs := by
  unfold Avoids
  refine forall₃_congr fun w x only => ?_
  have free : e.read x = none := (mem_free_iff.1 (only ▸ List.mem_singleton_self (w, x))).2
  have whole := least_split (extends_refl e) terms
  rw [only] at whole
  simp only [least, total, leastTerm_of_free free] at whole ⊢
  omega

theorem avoids_negated {terms : List (Int × ν)} {rhs : Int} :
    e.Avoids (negated terms) (-rhs) ↔ e.Avoids terms rhs := by
  rw [avoids_iff_settled, avoids_iff_settled, free_negated, settled_negated]
  constructor
  · intro apart w x only
    have := apart (-w) x (by rw [only]; rfl)
    omega
  · intro apart w x only
    obtain ⟨⟨u, y⟩, single, same⟩ := List.map_eq_singleton_iff.1 only
    cases same
    have := apart u y single
    omega

end PartialValuation

namespace WeightedSum
variable {ν : Type}

def mirrored (p : WeightedSum ν) : WeightedSum ν :=
  ⟨negated p.terms, p.relation.mirrored, -p.rhs, p.control⟩

variable [Variable ν]

theorem alike_mirrored (e : PartialValuation) (p : WeightedSum ν) : Alike e p p.mirrored := by
  refine ⟨rfl, ?_, ?_, ?_⟩
  · simp only [Entailed, mirrored, least_negated, greatest_negated]
    exact (p.relation.holdsThroughout_mirrored _ _ _).symm
  · simp only [Refuted, mirrored, least_negated, greatest_negated, Relation.negation_mirrored]
    exact (p.relation.negation.holdsThroughout_mirrored _ _ _).symm
  · unfold Pruned mirrored
    cases p.relation with
    | equal =>
      simp only [Relation.mirrored, slackAbove_negated, slackBelow_negated]
      exact and_comm
    | _ => simp only [Relation.mirrored, slackAbove_negated, slackBelow_negated, avoids_negated]

theorem restrict_mirrored (p : WeightedSum ν) (d : PartialValuation) :
    p.mirrored.restrict d = (p.restrict d).mirrored := by
  simp only [restrict, mirrored, free_negated, settled_negated, WeightedSum.mk.injEq, true_and,
    and_true]
  omega

end WeightedSum

namespace Residue

theorem addWeight_negated (w : Int) (d : DomainId) (terms : List (Int × DomainId)) :
    addWeight (-w) d (negated terms) = negated (addWeight w d terms) := by
  induction terms with
  | nil => rfl
  | cons t rest ih =>
    obtain ⟨v, c⟩ := t
    unfold negated at ih ⊢
    simp only [List.map_cons, addWeight]
    split
    · rw [List.map_cons, Int.neg_add]
    · rw [List.map_cons, ih]

def mirrored (r : Residue) (weight : Int) : Residue := ⟨negated r.terms, weight - r.rhs⟩

theorem add_complement (r : Residue) (w weight : Int) (l : Literal) :
    (r.mirrored (w + weight)).add w l.complement = (r.add w l).mirrored weight := by
  obtain ⟨d, opposite⟩ := l
  have twice := addWeight_negated (-w) d r.terms
  rw [Int.neg_neg] at twice
  cases opposite with
  | false =>
    simp only [add, mirrored, Literal.complement, Bool.not_false, if_true, Bool.false_eq_true,
      if_false, addWeight_negated, Residue.mk.injEq, true_and]
    omega
  | true =>
    simp only [add, mirrored, Literal.complement, Bool.not_true, if_true, Bool.false_eq_true,
      if_false, twice, Residue.mk.injEq, true_and]
    omega

theorem merge_complements (r : Residue) (terms : List (Int × Literal)) :
    (r.mirrored (terms.map (·.1)).sum).merge (terms.map fun t => (t.1, t.2.complement)) =
      (r.merge terms).mirrored 0 := by
  induction terms generalizing r with
  | nil => rfl
  | cons t rest ih =>
    rw [List.map_cons, List.map_cons, List.sum_cons, merge, add_complement, ih]
    rfl

end Residue

namespace LinearConstraint

def complemented (c : LinearConstraint) : LinearConstraint where
  coefficients := c.coefficients
  literals := c.literals.map Literal.complement
  relation := c.relation.mirrored
  rhs := c.coefficients.sum - c.rhs

theorem checkSizes_complemented (c : LinearConstraint) :
    c.complemented.checkSizes = c.checkSizes := by
  simp only [checkSizes, complemented, List.length_map]

theorem asSum_complemented {c : LinearConstraint}
    (sizes : c.coefficients.length = c.literals.length) (control : Option Literal) :
    c.complemented.asSum control = (c.asSum control).mirrored := by
  have terms : c.coefficients.zip (c.literals.map Literal.complement) =
      (c.coefficients.zip c.literals).map fun t => (t.1, t.2.complement) := by
    rw [List.zip_map_right]
    rfl
  have merged : Residue.merge { rhs := c.coefficients.sum - c.rhs }
      (c.coefficients.zip (c.literals.map Literal.complement)) =
      (Residue.merge { rhs := c.rhs } (c.coefficients.zip c.literals)).mirrored 0 := by
    rw [terms, ← Residue.merge_complements, List.map_fst_zip (Nat.le_of_eq sizes)]
    rfl
  have nonzero : ∀ all : List (Int × DomainId), (negated all).filter (fun t => t.1 ≠ 0) =
      negated (all.filter fun t => t.1 ≠ 0) := by
    intro all
    unfold negated
    rw [List.filter_map]
    simp only [Function.comp_def, ne_eq, Int.neg_eq_zero]
  unfold asSum complemented WeightedSum.mirrored
  simp only [merged, Residue.mirrored, Int.zero_sub, Relation.nonStrict_mirrored, nonzero]

end LinearConstraint

namespace NormalSum
variable {n m : NormalSum} {c : LinearConstraint} {s : Domains} {limits : Limits}
  {location : Location}

def mirrored (n : NormalSum) : NormalSum := ⟨negated n.terms, n.relation.mirrored, -n.rhs⟩

theorem ofConstraint_complemented (sizes : c.coefficients.length = c.literals.length)
    (formed : ofConstraint c s limits location = .ok (.ok n))
    (formed' : ofConstraint c.complemented s limits location = .ok (.ok m)) : m = n.mirrored := by
  have form := (ofConstraint_ok formed none).1
  have form' := (ofConstraint_ok formed' none).1
  rw [LinearConstraint.asSum_complemented sizes, WeightedSum.restrict_mirrored, ← form] at form'
  obtain ⟨terms, relation, rhs⟩ := m
  cases form'
  rfl

theorem isEmpty_mirrored (n : NormalSum) : n.mirrored.terms.isEmpty = n.terms.isEmpty := by
  rw [mirrored, negated, List.isEmpty_map]

theorem holdsEmpty_mirrored (n : NormalSum) : n.mirrored.HoldsEmpty ↔ n.HoldsEmpty := by
  unfold HoldsEmpty mirrored
  cases n.relation <;> simp only [Relation.mirrored, Relation.Holds] <;> omega

theorem hasUnitWeights_mirrored (n : NormalSum) : n.mirrored.HasUnitWeights ↔ n.HasUnitWeights := by
  simp only [HasUnitWeights, mirrored, negated, List.forall_mem_map, Int.natAbs_neg]

theorem domains_mirrored (unit : n.HasUnitWeights) :
    n.mirrored.positives = n.negatives ∧ n.mirrored.negatives = n.positives := by
  have below : ∀ t ∈ n.terms, (0 < -t.1 ↔ ¬ 0 < t.1) ∧ (¬ 0 < -t.1 ↔ 0 < t.1) := by
    intro t member
    have one := unit t member
    omega
  unfold positives negatives mirrored negated
  simp only [List.filter_map, List.map_map]
  constructor
  · congr 1
    exact List.filter_congr fun t member => decide_eq_decide.2 (below t member).1
  · congr 1
    exact List.filter_congr fun t member => decide_eq_decide.2 (below t member).2

end NormalSum

/-- The encodings come to the same: as many of the same literals, or sums that are judged alike. -/
inductive Encoding.Alike : Encoding → Encoding → Prop where
  | counts {c d : AtLeast.Blueprint Literal} :
      c.vars.Perm d.vars → c.threshold = d.threshold → Alike (.counts [c]) (.counts [d])
  | sum {b d : WeightedSum.Blueprint Literal} :
      (∀ control e, WeightedSum.Alike e (WeightedSum.Blueprint.asSum { b with control })
        (WeightedSum.Blueprint.asSum { d with control })) → Alike (.sum b) (.sum d)

namespace NormalSum
variable {n : NormalSum} {limits : Limits} {location : Location}

/-- An upper bound on unit weights is the same count as the lower bound on the opposites. -/
theorem alike_counts {b d : AtLeast.Blueprint Literal} (unit : n.HasUnitWeights)
    (h : n.atMost limits location = .ok b) (k : n.mirrored.atLeast limits location = .ok d) :
    Encoding.Alike (.counts [b]) (.counts [d]) := by
  obtain ⟨threshold, admitted, h⟩ := bind_eq_ok_iff.1 h
  obtain ⟨threshold', admitted', k⟩ := bind_eq_ok_iff.1 k
  obtain rfl := (Limits.check_eq_ok_iff.1 admitted).2
  obtain rfl := (Limits.check_eq_ok_iff.1 admitted').2
  rw [← pure_eq_ok_iff.1 h, ← pure_eq_ok_iff.1 k]
  obtain ⟨positives, negatives⟩ := domains_mirrored unit
  apply Encoding.Alike.counts
  · simp only [positives, negatives]
    exact List.perm_append_comm
  · change (n.positives.length : Int) - n.rhs = -n.rhs + n.mirrored.negatives.length
    rw [negatives]
    omega

theorem alike_encode {first second : Encoding} (relation : n.relation = .atMost)
    (h : n.encode limits location = .ok first)
    (k : n.mirrored.encode limits location = .ok second) : first.Alike second := by
  have opposite : n.mirrored.relation = .atLeast := congrArg Relation.mirrored relation
  unfold encode route at h k
  rw [opposite] at k
  rw [relation] at h
  by_cases unit : n.HasUnitWeights
  · rw [if_pos unit] at h
    rw [if_pos (n.hasUnitWeights_mirrored.2 unit)] at k
    obtain ⟨b, made, h⟩ := bind_eq_ok_iff.1 h
    obtain ⟨d, made', k⟩ := bind_eq_ok_iff.1 k
    rw [← pure_eq_ok_iff.1 h, ← pure_eq_ok_iff.1 k]
    exact alike_counts unit made made'
  · rw [if_neg unit] at h
    rw [if_neg (mt n.hasUnitWeights_mirrored.1 unit)] at k
    obtain ⟨b, made, h⟩ := bind_eq_ok_iff.1 h
    obtain ⟨d, made', k⟩ := bind_eq_ok_iff.1 k
    rw [← pure_eq_ok_iff.1 h, ← pure_eq_ok_iff.1 k]
    apply Encoding.Alike.sum
    intro control e
    have strict : ¬ n.relation.IsStrict := by simp [relation, Relation.IsStrict]
    have strict' : ¬ n.mirrored.relation.IsStrict := by simp [opposite, Relation.IsStrict]
    rw [weighted_asSum strict made, weighted_asSum strict' made']
    have across : n.mirrored.terms.map (fun t => (t.1, Literal.positive t.2)) =
        negated (n.terms.map fun t => (t.1, Literal.positive t.2)) := by
      simp only [mirrored, negated, List.map_map, Function.comp_def]
    rw [across]
    exact WeightedSum.alike_mirrored e _

end NormalSum
end PseudoBoolean
