import PseudoBoolean.Constraint.NormalSum
import PseudoBoolean.Proofs.Domains
import PseudoBoolean.Proofs.Stability

/-!
The normal form of a constraint. Merging all terms of a constraint by domain gives one weighted sum
that does not depend on a store; the normal sum for a store is what is left of it when the domains
with a value are taken out. So a constraint has the same stable points whenever it is posted.
-/
namespace PseudoBoolean
open PartialValuation

namespace Relation

theorem holds_add (r : Relation) (a b k : Int) : r.Holds (a + k) (b + k) ↔ r.Holds a b := by
  cases r <;> simp only [Holds] <;> omega

theorem nonStrict_sub (r : Relation) (b k : Int) :
    r.nonStrict (b - k) = ((r.nonStrict b).1, (r.nonStrict b).2 - k) := by
  cases r <;> simp only [nonStrict, Prod.mk.injEq, true_and] <;> omega

theorem nonStrict_of_not_isStrict {r : Relation} (h : ¬ r.IsStrict) (b : Int) :
    r.nonStrict b = (r, b) := by
  cases r <;> simp [IsStrict] at h <;> rfl

end Relation

namespace Residue

section addWeight
variable {w : Int} {d : DomainId}

theorem total_addWeight {f : Int → DomainId → Int}
    (additive : ∀ v w d, f (v + w) d = f v d + f w d) (terms : List (Int × DomainId)) :
    total f (addWeight w d terms) = total f terms + f w d := by
  induction terms with
  | nil => simp [addWeight, total]
  | cons t rest ih =>
    obtain ⟨v, e⟩ := t
    unfold addWeight
    split
    · next same =>
      simp only [total, additive, same]
      omega
    · simp only [total, ih]
      omega

theorem filter_addWeight (keep : DomainId → Bool) (terms : List (Int × DomainId)) :
    (addWeight w d terms).filter (fun t => keep t.2) =
      if keep d then addWeight w d (terms.filter fun t => keep t.2)
      else terms.filter fun t => keep t.2 := by
  induction terms with
  | nil => cases kept : keep d <;> simp [addWeight, kept]
  | cons t rest ih =>
    obtain ⟨v, e⟩ := t
    by_cases same : e = d
    · subst same
      cases kept : keep e <;> simp [addWeight, kept]
    · simp only [addWeight, if_neg same, List.filter_cons, ih]
      cases kept : keep d <;> cases keep e <;> simp [addWeight, same]

theorem mem_domains_addWeight {e : DomainId} {terms : List (Int × DomainId)} :
    e ∈ (addWeight w d terms).map (·.2) ↔ e = d ∨ e ∈ terms.map (·.2) := by
  induction terms with
  | nil => simp [addWeight]
  | cons t rest ih =>
    obtain ⟨v, c⟩ := t
    unfold addWeight
    split
    · next same => simp [same]
    · simp only [List.map_cons, List.mem_cons, ih]
      exact or_left_comm

theorem nodup_addWeight {terms : List (Int × DomainId)} (h : (terms.map (·.2)).Nodup) :
    ((addWeight w d terms).map (·.2)).Nodup := by
  induction terms with
  | nil => simp [addWeight]
  | cons t rest ih =>
    obtain ⟨v, c⟩ := t
    have ⟨new, later⟩ := List.nodup_cons.1 h
    unfold addWeight
    split
    · exact h
    · next other =>
      refine List.nodup_cons.2 ⟨?_, ih later⟩
      intro member
      rcases mem_domains_addWeight.1 member with same | old
      · exact other same
      · exact new old

end addWeight

def merge (r : Residue) : List (Int × Literal) → Residue
  | [] => r
  | (w, l) :: rest => (r.add w l).merge rest

theorem nodup_merge {r : Residue} (h : (r.terms.map (·.2)).Nodup) (terms : List (Int × Literal)) :
    ((r.merge terms).terms.map (·.2)).Nodup := by
  induction terms generalizing r with
  | nil => exact h
  | cons t rest ih =>
    apply ih
    unfold add
    split <;> exact nodup_addWeight h

theorem mem_domains_merge {r : Residue} {terms : List (Int × Literal)} {d : DomainId} :
    d ∈ (r.merge terms).terms.map (·.2) ↔
      d ∈ r.terms.map (·.2) ∨ ∃ t ∈ terms, t.2.domain = d := by
  induction terms generalizing r with
  | nil => simp [merge]
  | cons t rest ih =>
    obtain ⟨w, l⟩ := t
    have step : d ∈ (r.add w l).terms.map (·.2) ↔ d = l.domain ∨ d ∈ r.terms.map (·.2) := by
      unfold add
      split <;> exact mem_domains_addWeight
    rw [merge, ih, step]
    simp only [List.mem_cons, exists_eq_or_imp, eq_comm (a := d)]
    rw [or_comm (a := l.domain = d), or_assoc]

theorem term_add (v : Valuation) (a b : Int) (d : DomainId) :
    v.term (a + b) d = v.term a d + v.term b d := by
  unfold Valuation.term
  split <;> rfl

theorem sum_add (v : Valuation) (r : Residue) (w : Int) (l : Literal) :
    v.sum (r.add w l).terms - (r.add w l).rhs = v.sum r.terms - r.rhs + v.term w l := by
  unfold add
  obtain ⟨d, negated⟩ := l
  cases negated with
  | false =>
    simp only [Bool.false_eq_true, if_false, sum_eq_total]
    rw [total_addWeight (term_add v)]
    simp only [Valuation.term, Valuation.eval_domain]
    change _ = _ + if v.eval (Literal.positive d) then w else 0
    rw [Valuation.eval_positive]
    omega
  | true =>
    simp only [if_true, sum_eq_total]
    rw [total_addWeight (term_add v)]
    simp only [Valuation.term, Valuation.eval_domain]
    change _ = _ + if v.eval (Literal.positive d).complement then w else 0
    rw [Valuation.eval_complement, Valuation.eval_positive]
    cases v d <;> simp <;> omega

theorem sum_merge (v : Valuation) (r : Residue) (terms : List (Int × Literal)) :
    v.sum (r.merge terms).terms - (r.merge terms).rhs = v.sum r.terms - r.rhs + v.sum terms := by
  induction terms generalizing r with
  | nil => simp [merge]
  | cons t rest ih =>
    rw [merge, ih, sum_add, Valuation.sum_cons, Int.add_assoc]

end Residue

namespace PartialValuation
variable {ν : Type} [Variable ν]

def settledTerm (e : PartialValuation) (w : Int) (x : ν) : Int :=
  if e.read x = some true then w else 0

theorem settled_eq_total (e : PartialValuation) (terms : List (Int × ν)) :
    e.settled terms = total e.settledTerm terms := by
  induction terms with
  | nil => rfl
  | cons t rest ih =>
    obtain ⟨w, x⟩ := t
    unfold settled at ih ⊢
    rw [List.filter_cons, total, ← ih, settledTerm]
    cases value : e.read x with
    | none => simp
    | some b => cases b <;> simp [least, total, leastTerm, value]

theorem settledTerm_add (e : PartialValuation) (v w : Int) (x : ν) :
    e.settledTerm (v + w) x = e.settledTerm v x + e.settledTerm w x := by
  unfold settledTerm
  split <;> rfl

omit [Variable ν] in
theorem total_nonzero {f : Int → ν → Int} (zero : ∀ x, f 0 x = 0) (terms : List (Int × ν)) :
    total f (terms.filter fun t => t.1 ≠ 0) = total f terms := by
  induction terms with
  | nil => rfl
  | cons t rest ih =>
    obtain ⟨w, x⟩ := t
    rw [List.filter_cons, total]
    by_cases absent : w = 0
    · rw [if_neg (by simp [absent]), ih, absent, zero, Int.zero_add]
    · rw [if_pos (by simp [absent]), total, ih]

end PartialValuation

namespace Residue

/-- `part` is what is left of `all` when the domains with a value are taken out. -/
structure Rest (known : PartialValuation) (all part : Residue) : Prop where
  terms : part.terms = all.terms.filter fun t => (known t.2).isNone
  rhs : part.rhs = all.rhs - known.settled all.terms

theorem Rest.add_free {known : PartialValuation} {all part : Residue} (h : Rest known all part)
    {l : Literal} (free : known.read l = none) (w : Int) :
    Rest known (all.add w l) (part.add w l) := by
  have unread : known l.domain = none := read_eq_none_iff.1 free
  have nothing : ∀ v, known.settledTerm v l.domain = 0 := by
    intro v
    rw [settledTerm, read_domain, unread]
    rfl
  unfold add
  split
  · constructor
    · simp only [filter_addWeight (fun d => (known d).isNone), unread, h.terms,
        Option.isNone_none, if_true]
    · simp only [h.rhs, settled_eq_total, total_addWeight known.settledTerm_add, nothing]
      omega
  · constructor
    · simp only [filter_addWeight (fun d => (known d).isNone), unread, h.terms,
        Option.isNone_none, if_true]
    · simp only [h.rhs, settled_eq_total, total_addWeight known.settledTerm_add, nothing]
      omega

theorem Rest.add_known {known : PartialValuation} {all part : Residue} (h : Rest known all part)
    {l : Literal} {b : Bool} (value : known.read l = some b) (w : Int) :
    Rest known (all.add w l) { part with rhs := part.rhs - if b then w else 0 } := by
  have stored : known l.domain = some (l.view b) := read_eq_some_iff.1 value
  have settles : ∀ v, known.settledTerm v l.domain = if l.view b then v else 0 := by
    intro v
    simp only [settledTerm, read_domain, stored, Option.some.injEq]
  unfold add
  split
  · next negated =>
    constructor
    · simp only [filter_addWeight (fun d => (known d).isNone), stored, h.terms, Option.isNone_some]
      rfl
    · simp only [h.rhs, settled_eq_total, total_addWeight known.settledTerm_add, settles]
      cases b <;> simp [Literal.view, negated] <;> omega
  · next positive =>
    constructor
    · simp only [filter_addWeight (fun d => (known d).isNone), stored, h.terms, Option.isNone_some]
      rfl
    · simp only [h.rhs, settled_eq_total, total_addWeight known.settledTerm_add, settles]
      cases b with
      | false => simp [Literal.view, positive]
      | true =>
        simp [Literal.view, positive]
        omega

/-- Gathering for a store is merging and then taking out what the store knows. -/
theorem rest_of_gather {s : Domains} {all part left : Residue} (h : Rest s.known all part)
    {terms : List (Int × Literal)} (gathered : gather s part terms = .ok left) :
    Rest s.known (all.merge terms) left := by
  induction terms generalizing all part with
  | nil =>
    rw [← pure_eq_ok_iff.1 gathered]
    exact h
  | cons t rest ih =>
    obtain ⟨w, l⟩ := t
    obtain ⟨value, got, gathered⟩ := bind_eq_ok_iff.1 gathered
    have same := Domains.known_of_read got
    cases value with
    | none => exact ih (h.add_free same w) gathered
    | some b =>
      have next := h.add_known same w
      cases b with
      | true => exact ih next gathered
      | false =>
        simp only [Bool.false_eq_true, if_false, Int.sub_zero] at next
        exact ih next gathered

end Residue

namespace WeightedSum
variable {ν : Type} [Variable ν]

def restrict (p : WeightedSum ν) (d : PartialValuation) : WeightedSum ν :=
  { p with terms := d.free p.terms, rhs := p.rhs - d.settled p.terms }

section restrict
variable {p : WeightedSum ν} {e d : PartialValuation}

theorem restrict_refuted (above : e.Extends d) : (p.restrict d).Refuted e ↔ p.Refuted e := by
  have lower := least_split above p.terms
  have upper := greatest_split above p.terms
  unfold Refuted restrict
  rw [lower, upper]
  cases p.relation <;> simp only [Relation.negation, Relation.HoldsThroughout] <;> omega

theorem restrict_pruned (above : e.Extends d) : (p.restrict d).Pruned e ↔ p.Pruned e := by
  have lower := least_split above p.terms
  have upper := greatest_split above p.terms
  have free := free_of_extends above p.terms
  have slackAbove : e.SlackAbove (d.free p.terms) (p.rhs - d.settled p.terms) ↔
      e.SlackAbove p.terms p.rhs := by
    unfold SlackAbove
    rw [free, lower]
    refine forall₂_congr fun t _ => ?_
    omega
  have slackBelow : e.SlackBelow (d.free p.terms) (p.rhs - d.settled p.terms) ↔
      e.SlackBelow p.terms p.rhs := by
    unfold SlackBelow
    rw [free, upper]
    refine forall₂_congr fun t _ => ?_
    omega
  have avoids : e.Avoids (d.free p.terms) (p.rhs - d.settled p.terms) ↔
      e.Avoids p.terms p.rhs := by
    unfold Avoids
    rw [free, lower]
    refine forall₃_congr fun w x _ => ?_
    omega
  unfold Pruned restrict
  cases p.relation <;> simp only [slackAbove, slackBelow, avoids]

theorem restrict_stableAt (above : e.Extends d) : (p.restrict d).StableAt e ↔ p.StableAt e := by
  unfold StableAt
  rw [restrict_refuted above, restrict_pruned above]
  rfl

end restrict

theorem refuted_iff_of_known {p : WeightedSum ν} {e : PartialValuation} {v : Valuation}
    (known : ∀ t ∈ p.terms, e.read t.2 = some (v.eval t.2)) :
    p.Refuted e ↔ ¬ p.relation.Holds (v.sum p.terms) p.rhs := by
  have same : ∀ t ∈ p.terms, e.read t.2 = (ofTotal v).read t.2 := known
  unfold Refuted
  rw [least_congr same, greatest_congr same, least_ofTotal, greatest_ofTotal,
    ← Relation.holds_negation, Relation.holdsThroughout_iff _ (Int.le_refl _)]
  constructor
  · intro all
    exact all _ (Int.le_refl _) (Int.le_refl _)
  · intro holds a above below
    rw [Int.le_antisymm below above]
    exact holds

theorem pruned_of_known {p : WeightedSum ν} {e : PartialValuation}
    (known : ∀ t ∈ p.terms, e.read t.2 ≠ none) : p.Pruned e := by
  have nothing : e.free p.terms = [] := by
    apply List.filter_eq_nil_iff.2
    intro t member free
    exact known t member (by simpa using free)
  unfold Pruned SlackAbove SlackBelow Avoids
  rw [nothing]
  cases p.relation <;> simp

theorem stableAt_ofTotal {p : WeightedSum ν} {v : Valuation} :
    p.StableAt (ofTotal v) ↔
      ((∀ c ∈ p.control, v.eval c = true) → p.relation.Holds (v.sum p.terms) p.rhs) := by
  have refuted := refuted_iff_of_known (p := p) (e := ofTotal v) (v := v) fun _ _ => rfl
  have pruned : p.Pruned (ofTotal v) := pruned_of_known fun t _ => by simp
  have control : p.controlValue (ofTotal v) = some false ↔ ¬ ∀ c ∈ p.control, v.eval c = true := by
    unfold controlValue
    cases p.control with
    | none => simp
    | some c => simp
  unfold StableAt
  rw [refuted, control, Classical.not_not, and_iff_left fun _ => pruned]
  constructor
  · intro either required
    exact either.resolve_left fun vacuous => vacuous required
  · intro holds
    by_cases required : ∀ c ∈ p.control, v.eval c = true
    · exact Or.inr (holds required)
    · exact Or.inl required

end WeightedSum

/-- The sum that a constraint stands for, in the normal form of an empty store. -/
def LinearConstraint.asSum (c : LinearConstraint) (control : Option Literal) :
    WeightedSum DomainId :=
  let all := Residue.merge { rhs := c.rhs } (c.coefficients.zip c.literals)
  { terms := all.terms.filter fun t => t.1 ≠ 0
    relation := (c.relation.nonStrict all.rhs).1
    rhs := (c.relation.nonStrict all.rhs).2
    control }

def NormalSum.asSum (n : NormalSum) (control : Option Literal) : WeightedSum DomainId :=
  ⟨n.terms, n.relation, n.rhs, control⟩

namespace LinearConstraint

theorem asSum_holds_iff (c : LinearConstraint) (control : Option Literal) (v : Valuation) :
    (c.asSum control).relation.Holds (v.sum (c.asSum control).terms) (c.asSum control).rhs ↔
      c.SatisfiedBy v := by
  let all := Residue.merge { rhs := c.rhs } (c.coefficients.zip c.literals)
  have value := Residue.sum_merge v { rhs := c.rhs } (c.coefficients.zip c.literals)
  have zero : ∀ d : DomainId, v.term 0 d = 0 := fun d => ite_self 0
  have nonzero : v.sum (c.asSum control).terms = v.sum all.terms := by
    rw [sum_eq_total, sum_eq_total]
    exact total_nonzero zero all.terms
  have shifted : v.sum all.terms =
      v.sum (c.coefficients.zip c.literals) + (all.rhs - c.rhs) := by
    simp only [Valuation.sum_nil] at value
    simp only [all]
    omega
  have moved := c.relation.holds_add (v.sum (c.coefficients.zip c.literals)) c.rhs (all.rhs - c.rhs)
  have aligned : c.rhs + (all.rhs - c.rhs) = all.rhs := by omega
  rw [nonzero]
  change (c.relation.nonStrict all.rhs).1.Holds _ (c.relation.nonStrict all.rhs).2 ↔ _
  rw [aligned] at moved
  rw [Relation.holds_nonStrict, shifted]
  exact moved

theorem asSum_stableAt_ofTotal {c : LinearConstraint} {control : Option Literal} {v : Valuation} :
    (c.asSum control).StableAt (ofTotal v) ↔
      ((∀ b ∈ control, v.eval b = true) → c.SatisfiedBy v) := by
  rw [WeightedSum.stableAt_ofTotal, asSum_holds_iff]
  rfl

theorem literal_of_mem_asSum {c : LinearConstraint} {control : Option Literal} {t : Int × DomainId}
    (member : t ∈ (c.asSum control).terms) : ∃ l ∈ c.literals, l.domain = t.2 := by
  have merged := List.mem_map_of_mem (f := (·.2)) (List.mem_filter.1 member).1
  rcases Residue.mem_domains_merge.1 merged with never | ⟨⟨w, l⟩, inner, same⟩
  · cases never
  · exact ⟨l, (List.of_mem_zip inner).2, same⟩

theorem asSum_refuted_iff {c : LinearConstraint} {control : Option Literal} {e : PartialValuation}
    {v : Valuation} (known : ∀ l ∈ c.literals, e.read l = some (v.eval l)) :
    (c.asSum control).Refuted e ↔ ¬ c.SatisfiedBy v := by
  rw [← c.asSum_holds_iff control v]
  apply WeightedSum.refuted_iff_of_known
  intro t member
  obtain ⟨l, inner, same⟩ := literal_of_mem_asSum member
  have value := read_eq_some_iff.1 (known l inner)
  rw [read_domain, Valuation.eval_domain, ← same]
  exact value.trans (congrArg some (l.view_view (v l.domain)))

theorem nodup_asSum (c : LinearConstraint) (control : Option Literal) :
    ((c.asSum control).terms.map (·.2)).Nodup := by
  have merged := Residue.nodup_merge (r := { rhs := c.rhs }) List.nodup_nil
    (c.coefficients.zip c.literals)
  exact merged.sublist (List.Sublist.map _ List.filter_sublist)

end LinearConstraint

namespace NormalSum
variable {c : LinearConstraint} {s : Domains} {limits : Limits} {location : Location}
  {n : NormalSum}

/-- What a normal sum is made of: the gathered terms, and what they left of the right-hand side. -/
theorem exists_residue (h : ofConstraint c s limits location = .ok (.ok n)) :
    ∃ residue : Residue, c.coefficients.length = c.literals.length ∧
      Residue.gather s { rhs := c.rhs } (c.coefficients.zip c.literals) = .ok residue ∧
      n = ⟨residue.terms.filter fun t => t.1 ≠ 0, (c.relation.nonStrict residue.rhs).1,
        (c.relation.nonStrict residue.rhs).2⟩ := by
  unfold ofConstraint at h
  cases sizes : c.checkSizes with
  | error e =>
    rw [sizes] at h
    cases h
  | ok _ =>
  cases bounded : limits.check location c.rhs with
  | error e =>
    rw [sizes, bounded] at h
    cases h
  | ok rhs =>
  rw [sizes, bounded] at h
  obtain rfl := (Limits.check_eq_ok_iff.1 bounded).2
  obtain ⟨residue, gathered, h⟩ := bind_eq_ok_iff.1 h
  have h := pure_eq_ok_iff.1 h
  cases admitted : limits.check location residue.rhs with
  | error e =>
    rw [admitted] at h
    cases h
  | ok rhs =>
  obtain rfl := (Limits.check_eq_ok_iff.1 admitted).2
  rw [admitted] at h
  have equal : c.coefficients.length = c.literals.length := by
    unfold LinearConstraint.checkSizes at sizes
    split at sizes
    · next same => exact same
    · cases sizes
  exact ⟨residue, equal, gathered, (Except.ok.inj h).symm⟩

theorem ofConstraint_ok (h : ofConstraint c s limits location = .ok (.ok n))
    (control : Option Literal) :
    n.asSum control = (c.asSum control).restrict s.known ∧ ¬ n.relation.IsStrict := by
  obtain ⟨residue, -, gathered, rfl⟩ := exists_residue h
  have start : Residue.Rest s.known { rhs := c.rhs } { rhs := c.rhs } := by
    refine ⟨rfl, ?_⟩
    simp [settled, least, total]
  have rest := Residue.rest_of_gather start gathered
  have rhs := rest.rhs
  have settled : ∀ terms : List (Int × DomainId),
      s.known.settled (terms.filter fun t => t.1 ≠ 0) = s.known.settled terms := by
    intro terms
    rw [settled_eq_total, settled_eq_total]
    exact total_nonzero (fun d => ite_self 0) terms
  refine ⟨?_, Relation.not_isStrict_nonStrict c.relation residue.rhs⟩
  simp only [asSum, LinearConstraint.asSum, WeightedSum.restrict, WeightedSum.mk.injEq, settled]
  refine ⟨?_, ?_, ?_, trivial⟩
  · rw [rest.terms, List.filter_filter, free, List.filter_filter]
    apply List.filter_congr
    intro t _
    rw [read_domain, Bool.and_comm]
  · rw [rhs, Relation.nonStrict_sub]
  · rw [rhs, Relation.nonStrict_sub]

end NormalSum
end PseudoBoolean
