import PseudoBoolean.Propagator.Standard
import PseudoBoolean.Constraint.NormalSum

/-!
What the constraints mean. A valuation gives every domain a value; it completes a store when it
agrees with the domains that have one there. Each form that a constraint takes on its way to the
propagators (as posted, in normal form, as a blueprint) says which valuations satisfy it.
-/
namespace PseudoBoolean

abbrev Valuation := DomainId → Bool

namespace Valuation
variable {ν : Type} [Variable ν]

def eval (v : Valuation) (x : ν) : Bool :=
  (Variable.literal x).view (v (Variable.literal x).domain)

def term (v : Valuation) (w : Int) (x : ν) : Int := if v.eval x then w else 0

def sum (v : Valuation) (terms : List (Int × ν)) : Int :=
  terms.foldr (fun t rest => v.term t.1 t.2 + rest) 0

def numTrue (v : Valuation) (xs : List ν) : Nat := xs.countP v.eval

def Completes (v : Valuation) (s : Domains) : Prop :=
  ∀ d b, s.values.get? d = some (some b) → v d = b

@[simp] theorem eval_positive (v : Valuation) (d : DomainId) :
    v.eval (Literal.positive d) = v d := Literal.view_positive d (v d)

@[simp] theorem eval_domain (v : Valuation) (d : DomainId) : v.eval d = v d :=
  Literal.view_positive d (v d)

@[simp] theorem eval_complement (v : Valuation) (l : Literal) :
    v.eval l.complement = !v.eval l := Literal.view_complement l (v l.domain)

@[simp] theorem sum_nil (v : Valuation) : v.sum ([] : List (Int × ν)) = 0 := rfl

@[simp] theorem sum_cons (v : Valuation) (w : Int) (x : ν) (terms : List (Int × ν)) :
    v.sum ((w, x) :: terms) = v.term w x + v.sum terms := rfl

theorem sum_ones (v : Valuation) (xs : List ν) : v.sum (xs.map ((1 : Int), ·)) = v.numTrue xs := by
  induction xs with
  | nil => rfl
  | cons x rest ih =>
    rw [List.map_cons, sum_cons, ih, numTrue, numTrue, List.countP_cons, term]
    split
    · rw [Int.natCast_add, Int.add_comm]
      rfl
    · exact Int.zero_add _

theorem Completes.eval_of_read {v : Valuation} {s : Domains} (h : v.Completes s) {x : ν}
    {b : Bool} (read : s.read x = .ok (some b)) : v.eval x = b := by
  obtain ⟨value, got, read⟩ := bind_eq_ok_iff.1 read
  obtain ⟨a, rfl, viewed⟩ := Option.map_eq_some_iff.1 (pure_eq_ok_iff.1 read)
  rw [eval, h _ _ (Table.get_eq_ok_iff.1 got), viewed]

end Valuation

namespace LinearConstraint

def SatisfiedBy (c : LinearConstraint) (v : Valuation) : Prop :=
  c.relation.Holds (v.sum (c.coefficients.zip c.literals)) c.rhs

instance (c : LinearConstraint) (v : Valuation) : Decidable (c.SatisfiedBy v) :=
  inferInstanceAs (Decidable (c.relation.Holds (v.sum (c.coefficients.zip c.literals)) c.rhs))

theorem satisfiedBy_negation (c : LinearConstraint) (v : Valuation) :
    c.negation.SatisfiedBy v ↔ ¬ c.SatisfiedBy v := Relation.holds_negation _ _ _

end LinearConstraint

def NormalSum.SatisfiedBy (n : NormalSum) (v : Valuation) : Prop :=
  n.relation.Holds (v.sum n.terms) n.rhs

variable {ν : Type} [Variable ν]

def AtLeast.Blueprint.SatisfiedBy (b : AtLeast.Blueprint ν) (v : Valuation) : Prop :=
  b.threshold ≤ v.numTrue b.vars

def ImpliedAtLeast.Blueprint.SatisfiedBy (b : ImpliedAtLeast.Blueprint ν) (v : Valuation) : Prop :=
  v.eval b.control = true → b.threshold ≤ v.numTrue b.vars

def WeightedSum.Blueprint.SatisfiedBy (b : WeightedSum.Blueprint ν) (v : Valuation) : Prop :=
  (∀ c ∈ b.control, v.eval c = true) → b.relation.Holds (v.sum (b.weights.zip b.vars)) b.rhs

def Standard.SatisfiedBy (v : Valuation) : AnyBlueprint Standard.Kind → Prop
  | ⟨.atLeast _, b⟩ => AtLeast.Blueprint.SatisfiedBy b v
  | ⟨.impliedAtLeast _, b⟩ => ImpliedAtLeast.Blueprint.SatisfiedBy b v
  | ⟨.weightedSum _, b⟩ => WeightedSum.Blueprint.SatisfiedBy b v

end PseudoBoolean
