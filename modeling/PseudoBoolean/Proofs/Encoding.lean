import PseudoBoolean.Proofs.Counting
import PseudoBoolean.Proofs.NormalForm

/-!
The encodings of a normal sum. Handing a normal sum over as one weighted sum of literals, or, when
its weights are 1 and -1, as one or two counts, does not change its stable points.
-/
namespace PseudoBoolean
open PartialValuation

namespace WeightedSum
variable {ν μ : Type} [Variable ν] [Variable μ]

theorem stableAt_map {g : ν → μ} {e : PartialValuation} (same : ∀ x, e.read (g x) = e.read x)
    (terms : List (Int × ν)) (relation : Relation) (rhs : Int) (control : Option Literal) :
    StableAt ⟨terms.map fun t => (t.1, g t.2), relation, rhs, control⟩ e ↔
      StableAt ⟨terms, relation, rhs, control⟩ e := by
  have least : e.least (terms.map fun t => (t.1, g t.2)) = e.least terms := by
    unfold PartialValuation.least
    rw [total_map]
    exact total_congr fun t _ => by rw [leastTerm, leastTerm, same]
  have greatest : e.greatest (terms.map fun t => (t.1, g t.2)) = e.greatest terms := by
    unfold PartialValuation.greatest
    rw [total_map]
    exact total_congr fun t _ => by rw [greatestTerm, greatestTerm, same]
  have free : e.free (terms.map fun t => (t.1, g t.2)) =
      (e.free terms).map fun t => (t.1, g t.2) := by
    unfold PartialValuation.free
    rw [List.filter_map]
    congr 1
    apply List.filter_congr
    intro t _
    simp [same]
  have refuted : Refuted ⟨terms.map fun t => (t.1, g t.2), relation, rhs, control⟩ e ↔
      Refuted ⟨terms, relation, rhs, control⟩ e := by
    simp only [Refuted, least, greatest]
  have avoids : e.Avoids (terms.map fun t => (t.1, g t.2)) rhs ↔ e.Avoids terms rhs := by
    unfold Avoids
    rw [least, free]
    constructor
    · intro apart w x only
      exact apart w (g x) (by rw [only, List.map_singleton])
    · intro apart w y only
      obtain ⟨⟨u, x⟩, single, image⟩ := List.map_eq_singleton_iff.1 only
      cases image
      exact apart u x single
  have pruned : Pruned ⟨terms.map fun t => (t.1, g t.2), relation, rhs, control⟩ e ↔
      Pruned ⟨terms, relation, rhs, control⟩ e := by
    cases relation <;>
      simp only [Pruned, SlackAbove, SlackBelow, avoids, least, greatest, free, List.forall_mem_map]
  unfold StableAt
  rw [refuted, pruned]
  rfl

theorem stableAt_iff_of {p : WeightedSum ν} {q : WeightedSum μ} {e : PartialValuation}
    (control : p.control = q.control) (refuted : p.Refuted e ↔ q.Refuted e)
    (pruned : p.Pruned e ↔ q.Pruned e) : p.StableAt e ↔ q.StableAt e := by
  unfold StableAt controlValue
  rw [refuted, pruned, control]

end WeightedSum

namespace NormalSum
variable {n : NormalSum} {e : PartialValuation} {limits : Limits} {location : Location}

def literals (n : NormalSum) (f g : DomainId → Literal) : List Literal :=
  n.positives.map f ++ n.negatives.map g

theorem mem_literals {f g : DomainId → Literal} {l : Literal} :
    l ∈ n.literals f g ↔ ∃ t ∈ n.terms, l = if 0 < t.1 then f t.2 else g t.2 := by
  simp only [literals, positives, negatives, List.map_map, List.mem_append, List.mem_map,
    List.mem_filter, decide_eq_true_eq, Function.comp]
  constructor
  · intro member
    rcases member with ⟨t, ⟨member, positive⟩, rfl⟩ | ⟨t, ⟨member, negative⟩, rfl⟩
    · exact ⟨t, member, (if_pos positive).symm⟩
    · exact ⟨t, member, (if_neg negative).symm⟩
  · intro member
    obtain ⟨t, member, rfl⟩ := member
    by_cases positive : 0 < t.1
    · exact Or.inl ⟨t, ⟨member, positive⟩, (if_pos positive).symm⟩
    · exact Or.inr ⟨t, ⟨member, positive⟩, (if_neg positive).symm⟩

theorem exists_free_iff {f g : DomainId → Literal}
    (domain : ∀ d, (f d).domain = d ∧ (g d).domain = d) :
    (∃ l ∈ n.literals f g, e.read l = none) ↔ ∃ t ∈ n.terms, e.read t.2 = none := by
  have free : ∀ t : Int × DomainId, e.read (if 0 < t.1 then f t.2 else g t.2) = none ↔
      e.read t.2 = none := by
    intro t
    rw [read_domain, read_eq_none_iff]
    split
    · rw [variable_literal, (domain t.2).1]
    · rw [variable_literal, (domain t.2).2]
  constructor
  · intro found
    obtain ⟨l, member, unread⟩ := found
    obtain ⟨t, inside, rfl⟩ := mem_literals.1 member
    exact ⟨t, inside, (free t).1 unread⟩
  · intro found
    obtain ⟨t, inside, unread⟩ := found
    exact ⟨_, mem_literals.2 ⟨t, inside, rfl⟩, (free t).2 unread⟩

def complementOf (d : DomainId) : Literal := (Literal.positive d).complement

theorem read_complementOf (e : PartialValuation) (d : DomainId) :
    e.read (complementOf d) = (e d).map not := by
  rw [complementOf, read_complement, read_positive]

theorem unit_cases {w : Int} (h : w.natAbs = 1) : w = 1 ∨ w = -1 := by omega

theorem numPossible_atLeast (unit : n.HasUnitWeights) :
    (e.numPossible (n.literals Literal.positive complementOf) : Int) =
      e.greatest n.terms + n.negatives.length := by
  obtain ⟨terms, relation, rhs⟩ := n
  unfold HasUnitWeights at unit
  simp only [literals, positives, negatives, numPossible, List.countP_append, greatest]
  induction terms with
  | nil => rfl
  | cons t rest ih =>
    obtain ⟨w, d⟩ := t
    have ih := ih fun u member => unit u (List.mem_cons_of_mem _ member)
    simp only [total, greatestTerm, read_domain]
    rcases unit_cases (unit (w, d) List.mem_cons_self) with rfl | rfl
    · cases value : e d with
      | none => simp [value] at ih ⊢; omega
      | some b => cases b <;> simp [value] at ih ⊢ <;> omega
    · cases value : e d with
      | none => simp [value, read_complementOf] at ih ⊢; omega
      | some b => cases b <;> simp [value, read_complementOf] at ih ⊢ <;> omega

theorem numPossible_atMost (unit : n.HasUnitWeights) :
    (e.numPossible (n.literals complementOf Literal.positive) : Int) =
      n.positives.length - e.least n.terms := by
  -- what is counted is how far the sum stays below its greatest value
  obtain ⟨terms, relation, rhs⟩ := n
  unfold HasUnitWeights at unit
  simp only [literals, positives, negatives, numPossible, List.countP_append, least]
  induction terms with
  | nil => rfl
  | cons t rest ih =>
    obtain ⟨w, d⟩ := t
    have ih := ih fun u member => unit u (List.mem_cons_of_mem _ member)
    simp only [total, leastTerm, read_domain]
    rcases unit_cases (unit (w, d) List.mem_cons_self) with rfl | rfl
    · cases value : e d with
      | none => simp [value, read_complementOf] at ih ⊢; omega
      | some b => cases b <;> simp [value, read_complementOf] at ih ⊢ <;> omega
    · cases value : e d with
      | none => simp [value] at ih ⊢; omega
      | some b => cases b <;> simp [value] at ih ⊢ <;> omega

/-- A count that leaves as much room as a sum, and has a free variable when the sum has one, has the
    stable points of the sum. -/
theorem stableAt_of_room {p : WeightedSum DomainId} {xs : List Literal} {threshold : Int}
    (room : Int)
    (count : (e.numPossible xs : Int) - threshold = room)
    (free : (∃ x ∈ xs, e.read x = none) ↔ ∃ t ∈ p.terms, e.read t.2 = none)
    (refuted : p.Refuted e ↔ room < 0)
    (pruned : p.Pruned e ↔ ∀ t ∈ p.terms, e.read t.2 = none → 0 < room) :
    (WeightedSum.count p.control xs threshold).StableAt e ↔ p.StableAt e := by
  apply WeightedSum.stableAt_iff_of (p := .count p.control xs threshold) (q := p) rfl
  · rw [WeightedSum.count_refuted_iff, refuted]
    omega
  · rw [WeightedSum.count_pruned_iff, pruned]
    constructor
    · intro slack t member unread
      obtain ⟨x, inside, left⟩ := free.2 ⟨t, member, unread⟩
      have strict := slack x inside left
      omega
    · intro slack x member unread
      obtain ⟨t, inside, left⟩ := free.1 ⟨x, member, unread⟩
      have strict := slack t inside left
      omega

section encode
variable {b : AtLeast.Blueprint Literal} {control : Option Literal}

theorem pruned_iff_of_unit (unit : n.HasUnitWeights) {P : Int → Prop} :
    (∀ t ∈ e.free n.terms, P t.1.natAbs) ↔ ∀ t ∈ n.terms, e.read t.2 = none → P 1 := by
  simp only [mem_free_iff, and_imp]
  refine forall₃_congr fun t member unread => ?_
  rw [unit t member]
  rfl

theorem atLeast_stableAt (unit : n.HasUnitWeights) (h : n.atLeast limits location = .ok b) :
    (WeightedSum.count control b.vars b.threshold).StableAt e ↔
      WeightedSum.StableAt ⟨n.terms, .atLeast, n.rhs, control⟩ e := by
  obtain ⟨threshold, admitted, h⟩ := bind_eq_ok_iff.1 h
  obtain rfl := (Limits.check_eq_ok_iff.1 admitted).2
  rw [← pure_eq_ok_iff.1 h]
  have possible := numPossible_atLeast (e := e) unit
  apply stableAt_of_room (p := ⟨n.terms, .atLeast, n.rhs, control⟩) (e.greatest n.terms - n.rhs)
  · change (e.numPossible (n.literals Literal.positive complementOf) : Int) -
      (n.rhs + n.negatives.length) = _
    omega
  · exact exists_free_iff fun d => ⟨rfl, rfl⟩
  · simp only [WeightedSum.Refuted, Relation.negation, Relation.HoldsThroughout]
    omega
  · simp only [WeightedSum.Pruned, SlackBelow]
    rw [pruned_iff_of_unit (P := fun k => n.rhs ≤ e.greatest n.terms - k) unit]
    refine forall₃_congr fun t member unread => ?_
    omega

theorem atMost_stableAt (unit : n.HasUnitWeights) (h : n.atMost limits location = .ok b) :
    (WeightedSum.count control b.vars b.threshold).StableAt e ↔
      WeightedSum.StableAt ⟨n.terms, .atMost, n.rhs, control⟩ e := by
  obtain ⟨threshold, admitted, h⟩ := bind_eq_ok_iff.1 h
  obtain rfl := (Limits.check_eq_ok_iff.1 admitted).2
  rw [← pure_eq_ok_iff.1 h]
  have possible := numPossible_atMost (e := e) unit
  apply stableAt_of_room (p := ⟨n.terms, .atMost, n.rhs, control⟩) (n.rhs - e.least n.terms)
  · change (e.numPossible (n.literals complementOf Literal.positive) : Int) -
      (n.positives.length - n.rhs) = _
    omega
  · exact exists_free_iff fun d => ⟨rfl, rfl⟩
  · simp only [WeightedSum.Refuted, Relation.negation, Relation.HoldsThroughout]
    omega
  · simp only [WeightedSum.Pruned, SlackAbove]
    rw [pruned_iff_of_unit (P := fun k => e.least n.terms + k ≤ n.rhs) unit]
    refine forall₃_congr fun t member unread => ?_
    omega

theorem check_all {w : List Int} {terms : List (Int × DomainId)}
    (h : (terms.mapM fun t => limits.check location t.1) = .ok w) : w = terms.map (·.1) := by
  induction terms generalizing w with
  | nil =>
    rw [← pure_eq_ok_iff.1 h]
    rfl
  | cons t rest ih =>
    rw [List.mapM_cons] at h
    obtain ⟨first, admitted, h⟩ := bind_eq_ok_iff.1 h
    obtain ⟨others, later, h⟩ := bind_eq_ok_iff.1 h
    rw [← pure_eq_ok_iff.1 h, (Limits.check_eq_ok_iff.1 admitted).2, ih later]
    rfl

theorem weighted_asSum {b : WeightedSum.Blueprint Literal} (strict : ¬ n.relation.IsStrict)
    (h : n.weighted limits location = .ok b) (control : Option Literal) :
    WeightedSum.Blueprint.asSum { b with control } =
      ⟨n.terms.map fun t => (t.1, Literal.positive t.2), n.relation, n.rhs, control⟩ := by
  obtain ⟨weights, admitted, h⟩ := bind_eq_ok_iff.1 h
  obtain ⟨rhs, bounded, h⟩ := bind_eq_ok_iff.1 h
  obtain rfl := (Limits.check_eq_ok_iff.1 bounded).2
  obtain rfl := check_all admitted
  rw [← pure_eq_ok_iff.1 h]
  unfold WeightedSum.Blueprint.asSum
  simp only [Relation.nonStrict_of_not_isStrict strict, List.zip_map']

theorem weighted_stableAt {b : WeightedSum.Blueprint Literal} (strict : ¬ n.relation.IsStrict)
    (h : n.weighted limits location = .ok b) :
    (WeightedSum.Blueprint.asSum { b with control }).StableAt e ↔ (n.asSum control).StableAt e := by
  rw [weighted_asSum strict h]
  have same : ∀ d : DomainId, e.read (Literal.positive d) = e.read d := by
    intro d
    rw [read_positive, read_domain]
  exact WeightedSum.stableAt_map same n.terms n.relation n.rhs control

theorem equal_stableAt {ν : Type} [Variable ν] {terms : List (Int × ν)} {rhs : Int}
    {e : PartialValuation} :
    WeightedSum.StableAt ⟨terms, .equal, rhs, control⟩ e ↔
      WeightedSum.StableAt ⟨terms, .atLeast, rhs, control⟩ e ∧
        WeightedSum.StableAt ⟨terms, .atMost, rhs, control⟩ e := by
  let value := WeightedSum.controlValue (ν := ν) ⟨terms, .equal, rhs, control⟩ e
  change (value = some false ∨ ¬ (rhs < e.least terms ∨ e.greatest terms < rhs) ∧
      (value = some true → e.SlackAbove terms rhs ∧ e.SlackBelow terms rhs)) ↔
    (value = some false ∨ ¬ e.greatest terms < rhs ∧ (value = some true → e.SlackBelow terms rhs)) ∧
      (value = some false ∨ ¬ rhs < e.least terms ∧ (value = some true → e.SlackAbove terms rhs))
  constructor
  · intro stable
    rcases stable with vacuous | ⟨possible, pruned⟩
    · exact ⟨Or.inl vacuous, Or.inl vacuous⟩
    · have ⟨below, above⟩ := not_or.1 possible
      exact ⟨Or.inr ⟨above, fun enforced => (pruned enforced).2⟩,
        Or.inr ⟨below, fun enforced => (pruned enforced).1⟩⟩
  · intro both
    obtain ⟨vacuous | ⟨above, prunedBelow⟩, vacuous' | ⟨below, prunedAbove⟩⟩ := both
    · exact Or.inl vacuous
    · exact Or.inl vacuous
    · exact Or.inl vacuous'
    · exact Or.inr ⟨not_or.2 ⟨below, above⟩,
        fun enforced => ⟨prunedAbove enforced, prunedBelow enforced⟩⟩

end encode

theorem route_cases (n : NormalSum) :
    n.route = .generic ∨ n.HasUnitWeights ∧
      ((n.route = .atLeast ∧ n.relation = .atLeast) ∨ (n.route = .atMost ∧ n.relation = .atMost) ∨
        (n.route = .both ∧ n.relation = .equal)) := by
  unfold route
  by_cases unit : n.HasUnitWeights
  · rw [if_pos unit]
    cases n.relation <;> simp [unit]
  · rw [if_neg unit]
    exact Or.inl rfl

end NormalSum
end PseudoBoolean
