import PseudoBoolean.Proofs.Totality

/-!
What the normal form and its encodings mean. A constraint and its normal sum for a store have the
same solutions among the valuations that complete the store; the encodings of a normal sum have its
solutions among all valuations.
-/
namespace PseudoBoolean
open PartialValuation

theorem PartialValuation.numPossible_ofTotal {ν : Type} [Variable ν] (v : Valuation)
    (xs : List ν) : (ofTotal v).numPossible xs = v.numTrue xs := by
  apply List.countP_congr
  intro x _
  simp

theorem Domains.has_of_read {ν : Type} [Variable ν] {s : Domains} {x : ν} {value : Option Bool}
    (h : s.read x = .ok value) : s.Has x := by
  obtain ⟨stored, got, -⟩ := bind_eq_ok_iff.1 h
  exact Table.index_lt_iff.2 ⟨stored, Table.get_eq_ok_iff.1 got⟩

theorem Residue.has_of_gather {s : Domains} {r left : Residue} {terms : List (Int × Literal)}
    (gathered : gather s r terms = .ok left) : ∀ t ∈ terms, s.Has t.2 := by
  induction terms generalizing r with
  | nil => exact fun _ member => nomatch member
  | cons t rest ih =>
    obtain ⟨w, l⟩ := t
    obtain ⟨value, got, later⟩ := bind_eq_ok_iff.1 gathered
    intro u member
    rcases List.mem_cons.1 member with rfl | inside
    · exact Domains.has_of_read got
    · cases value with
      | none => exact ih later u inside
      | some b => cases b <;> exact ih later u inside

namespace NormalSum
variable {c : LinearConstraint} {s : Domains} {limits : Limits} {location : Location}
  {n : NormalSum} {v : Valuation}

theorem has_literals_of_ofConstraint (h : ofConstraint c s limits location = .ok (.ok n)) :
    ∀ l ∈ c.literals, s.Has l := by
  obtain ⟨residue, sizes, gathered, -⟩ := exists_residue h
  intro l member
  rw [← List.map_snd_zip (Nat.le_of_eq sizes.symm)] at member
  obtain ⟨t, inside, rfl⟩ := List.mem_map.1 member
  exact Residue.has_of_gather gathered t inside

theorem terms_of_ofConstraint (h : ofConstraint c s limits location = .ok (.ok n)) :
    n.terms = s.known.free (c.asSum none).terms :=
  congrArg WeightedSum.terms (ofConstraint_ok h none).1

theorem nodup_of_ofConstraint (h : ofConstraint c s limits location = .ok (.ok n)) :
    (n.terms.map (·.2)).Nodup := by
  rw [terms_of_ofConstraint h]
  exact (c.nodup_asSum none).sublist (List.filter_sublist.map _)

theorem read_of_ofConstraint (h : ofConstraint c s limits location = .ok (.ok n))
    {t : Int × DomainId} (member : t ∈ n.terms) : t.1 ≠ 0 ∧ s.read t.2 = .ok none := by
  have exist := has_of_ofConstraint (has_literals_of_ofConstraint h) h t member
  rw [terms_of_ofConstraint h] at member
  obtain ⟨merged, free⟩ := mem_free_iff.1 member
  rw [Domains.read_eq_known exist, free]
  exact ⟨of_decide_eq_true (List.mem_filter.1 merged).2, rfl⟩

/-- Satisfaction is stability at a valuation, and the normal form keeps the stable points. -/
theorem satisfiedBy_iff_of_ofConstraint (h : ofConstraint c s limits location = .ok (.ok n))
    (completes : v.Completes s) : c.SatisfiedBy v ↔ n.SatisfiedBy v := by
  have above := Domains.completes_iff.1 completes
  calc c.SatisfiedBy v
      ↔ (c.asSum none).StableAt (ofTotal v) := by simp [LinearConstraint.asSum_stableAt_ofTotal]
    _ ↔ ((c.asSum none).restrict s.known).StableAt (ofTotal v) :=
        (WeightedSum.restrict_stableAt above).symm
    _ ↔ (n.asSum none).StableAt (ofTotal v) := by rw [(ofConstraint_ok h none).1]
    _ ↔ n.SatisfiedBy v := by
        rw [WeightedSum.stableAt_ofTotal]
        simp [asSum, SatisfiedBy]

theorem atLeast_satisfiedBy (unit : n.HasUnitWeights) {b : AtLeast.Blueprint Literal}
    (h : n.atLeast limits location = .ok b) (v : Valuation) :
    b.SatisfiedBy v ↔ n.rhs ≤ v.sum n.terms := by
  have possible := numPossible_atLeast (e := ofTotal v) unit
  obtain ⟨threshold, admitted, h⟩ := bind_eq_ok_iff.1 h
  obtain rfl := (Limits.check_eq_ok_iff.1 admitted).2
  rw [numPossible_ofTotal, greatest_ofTotal] at possible
  rw [← pure_eq_ok_iff.1 h]
  change n.rhs + (n.negatives.length : Int) ≤
    v.numTrue (n.literals Literal.positive complementOf) ↔ _
  omega

theorem atMost_satisfiedBy (unit : n.HasUnitWeights) {b : AtLeast.Blueprint Literal}
    (h : n.atMost limits location = .ok b) (v : Valuation) :
    b.SatisfiedBy v ↔ v.sum n.terms ≤ n.rhs := by
  have possible := numPossible_atMost (e := ofTotal v) unit
  obtain ⟨threshold, admitted, h⟩ := bind_eq_ok_iff.1 h
  obtain rfl := (Limits.check_eq_ok_iff.1 admitted).2
  rw [numPossible_ofTotal, least_ofTotal] at possible
  rw [← pure_eq_ok_iff.1 h]
  change (n.positives.length : Int) - n.rhs ≤
    v.numTrue (n.literals complementOf Literal.positive) ↔ _
  omega

structure Transcribes (b : WeightedSum.Blueprint Literal) (n : NormalSum) : Prop where
  weights : b.weights = n.terms.map (·.1)
  vars : b.vars = n.terms.map fun t => Literal.positive t.2
  relation : b.relation = n.relation
  rhs : b.rhs = n.rhs
  sum : ∀ v : Valuation, v.sum (b.weights.zip b.vars) = v.sum n.terms

theorem transcribes_weighted {b : WeightedSum.Blueprint Literal}
    (h : n.weighted limits location = .ok b) : Transcribes b n := by
  obtain ⟨weights, admitted, h⟩ := bind_eq_ok_iff.1 h
  obtain ⟨rhs, bounded, h⟩ := bind_eq_ok_iff.1 h
  obtain rfl := (Limits.check_eq_ok_iff.1 bounded).2
  obtain rfl := check_all admitted
  obtain rfl := pure_eq_ok_iff.1 h
  refine ⟨rfl, rfl, rfl, rfl, ?_⟩
  intro v
  rw [List.zip_map', sum_eq_total, sum_eq_total, total_map]
  exact total_congr fun t _ => by simp [Valuation.term]

/-- `n` says of the completions of the store what the constraint says, in normal form, and its
    encodings say of all valuations what `n` says. -/
structure Compiles (c : LinearConstraint) (s : Domains) (n : NormalSum) : Prop where
  notStrict : ¬ n.relation.IsStrict
  distinct : (n.terms.map (·.2)).Nodup
  nonzero : ∀ t ∈ n.terms, t.1 ≠ 0
  unassigned : ∀ t ∈ n.terms, s.read t.2 = .ok none
  solutions : ∀ v : Valuation, v.Completes s → (c.SatisfiedBy v ↔ n.SatisfiedBy v)
  atLeast : n.HasUnitWeights → ∀ {limits location b}, n.atLeast limits location = .ok b →
    ∀ v : Valuation, b.threshold ≤ v.numTrue b.vars ↔ n.rhs ≤ v.sum n.terms
  atMost : n.HasUnitWeights → ∀ {limits location b}, n.atMost limits location = .ok b →
    ∀ v : Valuation, b.threshold ≤ v.numTrue b.vars ↔ v.sum n.terms ≤ n.rhs
  weighted : ∀ {limits location b}, n.weighted limits location = .ok b → Transcribes b n

theorem compiles_of_ofConstraint (h : ofConstraint c s limits location = .ok (.ok n)) :
    Compiles c s n where
  notStrict := (ofConstraint_ok h none).2
  distinct := nodup_of_ofConstraint h
  nonzero _ member := (read_of_ofConstraint h member).1
  unassigned _ member := (read_of_ofConstraint h member).2
  solutions _ := satisfiedBy_iff_of_ofConstraint h
  atLeast unit := atLeast_satisfiedBy unit
  atMost unit := atMost_satisfiedBy unit
  weighted := transcribes_weighted

/-- A true literal, a repeated one and one with its complement: 3x₀ + 2x₁ + 4x₁ + x₂ + 2¬x₂ < 9 is
    6x₁ - x₂ ≤ 3 once x₀ is true. -/
theorem compiles_of_ofConstraint_merged :
    ∃ (s : Domains) (n : NormalSum),
      s.values = .ofList [some true, none, none] ∧
      n = ⟨[(6, ⟨1⟩), (-1, ⟨2⟩)], .atMost, 3⟩ ∧
      Compiles ⟨[3, 2, 4, 1, 2],
        [⟨⟨0⟩, false⟩, ⟨⟨1⟩, false⟩, ⟨⟨1⟩, false⟩, ⟨⟨2⟩, false⟩, ⟨⟨2⟩, true⟩], .less, 9⟩ s n :=
  ⟨{ values := .ofList [some true, none, none] }, _, rfl, rfl,
    @compiles_of_ofConstraint _ _ .standard .linear _ rfl⟩

end NormalSum
end PseudoBoolean
