import PseudoBoolean.Proofs.Audiences
import PseudoBoolean.Proofs.Meaning
import PseudoBoolean.Proofs.Strength

/-!
The normal form, written out. Its terms are the domains without a value whose merged weight is not
zero, in the order in which they first occur in the constraint; its right-hand side is that of the
constraint less what the literals with a value and the negated literals without one move over.
-/
namespace PseudoBoolean
open PartialValuation

namespace Residue

theorem domains_addWeight (w : Int) (d : DomainId) (terms : List (Int × DomainId)) :
    (addWeight w d terms).map (·.2) =
      if d ∈ terms.map (·.2) then terms.map (·.2) else terms.map (·.2) ++ [d] := by
  induction terms with
  | nil => rfl
  | cons t rest ih =>
    obtain ⟨v, e⟩ := t
    unfold addWeight
    by_cases same : e = d
    · simp [same]
    · rw [if_neg same, List.map_cons, ih]
      simp only [List.map_cons, List.mem_cons, eq_comm (a := d), same, false_or]
      split <;> rfl

theorem domains_add (r : Residue) (w : Int) (l : Literal) :
    (r.add w l).terms.map (·.2) =
      if l.domain ∈ r.terms.map (·.2) then r.terms.map (·.2)
      else r.terms.map (·.2) ++ [l.domain] := by
  unfold add
  split <;> exact domains_addWeight _ _ _

theorem domains_merge {r : Residue} {seen : List DomainId}
    (h : r.terms.map (·.2) = seen.eraseDups) (terms : List (Int × Literal)) :
    (r.merge terms).terms.map (·.2) = (seen ++ terms.map (·.2.domain)).eraseDups := by
  induction terms generalizing r seen with
  | nil => simpa [merge] using h
  | cons t rest ih =>
    obtain ⟨w, l⟩ := t
    have next : (r.add w l).terms.map (·.2) = (seen ++ [l.domain]).eraseDups := by
      rw [domains_add, eraseDups_concat, h]
      simp only [List.mem_eraseDups]
    rw [merge, ih next, List.append_assoc]
    rfl

end Residue

namespace PartialValuation

/-- What a term moves over to the right-hand side: a literal that is true all of it, and so does a
    negated one without a value. -/
def movedTerm (known : PartialValuation) (w : Int) (l : Literal) : Int :=
  match known.read l with
  | some true => w
  | some false => 0
  | none => if l.negated then w else 0

end PartialValuation

theorem Residue.rhs_of_gather {s : Domains} {r left : Residue} {terms : List (Int × Literal)}
    (gathered : gather s r terms = .ok left) :
    left.rhs = r.rhs - total s.known.movedTerm terms := by
  induction terms generalizing r with
  | nil =>
    rw [← pure_eq_ok_iff.1 gathered]
    simp [total]
  | cons t rest ih =>
    obtain ⟨w, l⟩ := t
    obtain ⟨value, got, gathered⟩ := bind_eq_ok_iff.1 gathered
    have same := Domains.known_of_read got
    rw [total]
    cases value with
    | none =>
      have moved : s.known.movedTerm w l = if l.negated then w else 0 := by rw [movedTerm, same]
      rw [ih gathered, moved]
      unfold add
      split <;> simp only <;> omega
    | some b =>
      have moved : s.known.movedTerm w l = if b then w else 0 := by
        rw [movedTerm, same]
        cases b <;> rfl
      rw [moved]
      cases b <;> rw [ih gathered] <;> simp only [if_true, Bool.false_eq_true, if_false] <;> omega

namespace LinearConstraint
variable {c : LinearConstraint}

def residualRhs (c : LinearConstraint) (known : PartialValuation) : Int :=
  c.rhs - total known.movedTerm (c.coefficients.zip c.literals)

/-- The domains that still matter, in the order in which they first occur: those without a value
    whose terms do not cancel. -/
def openDomains (c : LinearConstraint) (known : PartialValuation) : List DomainId :=
  (c.literals.map (·.domain)).eraseDups.filter fun d => known d = none ∧ c.weightOn d ≠ 0

def normal (c : LinearConstraint) (known : PartialValuation) : NormalSum where
  terms := (c.openDomains known).map fun d => (c.weightOn d, d)
  relation := (c.relation.nonStrict (c.residualRhs known)).1
  rhs := (c.relation.nonStrict (c.residualRhs known)).2

theorem exists_literal_of_weightOn_ne_zero {d : DomainId} (weight : c.weightOn d ≠ 0) :
    ∃ l ∈ c.literals, l.domain = d := by
  by_contra apart
  apply weight
  have nothing : ∀ t ∈ c.coefficients.zip c.literals, Residue.addedTo d t.1 t.2 = 0 := by
    intro t member
    refine if_neg fun same => apart ⟨t.2, ?_, same⟩
    exact (List.of_mem_zip (a := t.1) (b := t.2) member).2
  rw [weightOn, total_congr (g := fun _ _ => 0) nothing, total_zero]

theorem mem_openDomains {known : PartialValuation} {d : DomainId} :
    d ∈ c.openDomains known ↔ known d = none ∧ c.weightOn d ≠ 0 := by
  simp only [openDomains, List.mem_filter, List.mem_eraseDups, List.mem_map, decide_eq_true_eq]
  constructor
  · exact fun member => member.2
  · exact fun matters => ⟨exists_literal_of_weightOn_ne_zero matters.2, matters⟩

theorem nodup_openDomains (c : LinearConstraint) (known : PartialValuation) :
    (c.openDomains known).Nodup := (nodup_eraseDups _).filter _

theorem asSum_terms (sizes : c.coefficients.length = c.literals.length) (control : Option Literal) :
    (c.asSum control).terms =
      ((c.literals.map (·.domain)).eraseDups.filter fun d => c.weightOn d ≠ 0).map
        fun d => (c.weightOn d, d) := by
  let all := (Residue.merge { rhs := c.rhs } (c.coefficients.zip c.literals)).terms
  have domains : all.map (·.2) = (c.literals.map (·.domain)).eraseDups := by
    have empty : ({ rhs := c.rhs } : Residue).terms.map (·.2) = [].eraseDups := rfl
    have merged := Residue.domains_merge empty (c.coefficients.zip c.literals)
    rw [List.nil_append] at merged
    refine merged.trans (congrArg List.eraseDups ?_)
    calc (c.coefficients.zip c.literals).map (·.2.domain)
        = ((c.coefficients.zip c.literals).map Prod.snd).map (·.domain) := by rw [List.map_map]; rfl
      _ = c.literals.map (·.domain) := by rw [List.map_snd_zip (Nat.le_of_eq sizes.symm)]
  have weighed : all = (c.literals.map (·.domain)).eraseDups.map fun d => (c.weightOn d, d) := by
    rw [← domains, List.map_map]
    refine (List.map_id all).symm.trans (List.map_congr_left ?_)
    intro t member
    exact Prod.ext (eq_weightOn_of_mem_merge member) rfl
  change all.filter (fun t => t.1 ≠ 0) = _
  rw [weighed, List.filter_map]
  rfl

end LinearConstraint

namespace NormalSum
variable {c : LinearConstraint} {s : Domains} {limits : Limits} {location : Location}
  {n : NormalSum}

theorem eq_normal_of_ofConstraint (h : ofConstraint c s limits location = .ok (.ok n)) :
    n = c.normal s.known := by
  obtain ⟨residue, sizes, gathered, rfl⟩ := exists_residue h
  have terms := terms_of_ofConstraint h
  have rhs : residue.rhs = c.residualRhs s.known := Residue.rhs_of_gather gathered
  rw [LinearConstraint.normal, NormalSum.mk.injEq, rhs]
  refine ⟨?_, rfl, rfl⟩
  refine terms.trans ?_
  rw [LinearConstraint.asSum_terms sizes, free, List.filter_map, LinearConstraint.openDomains]
  congr 1
  rw [List.filter_filter]
  apply List.filter_congr
  intro d _
  cases value : s.known d <;> simp [read_domain, value]

end NormalSum
end PseudoBoolean
