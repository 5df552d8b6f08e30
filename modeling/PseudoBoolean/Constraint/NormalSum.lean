import PseudoBoolean.Limits
import PseudoBoolean.Propagator.AtLeast
import PseudoBoolean.Propagator.WeightedSum

/-!
Linear constraints over literals and their normal form. In the normal form every domain occurs at
most once and without a value, no weight is zero, and the relation is not strict. A normal sum
with weights 1 and -1 only is a statement about how many of some literals are true.
-/
namespace PseudoBoolean

/-- The sum of the literals, each times its coefficient, stands in the relation to `rhs`. -/
structure LinearConstraint where
  coefficients : List Int
  literals : List Literal
  relation : Relation
  rhs : Int
deriving DecidableEq, Repr

namespace LinearConstraint

def negation (c : LinearConstraint) : LinearConstraint := { c with relation := c.relation.negation }

def checkSizes (c : LinearConstraint) : Except ConstraintError Unit :=
  if c.coefficients.length = c.literals.length then .ok ()
  else .error (.sizeMismatch c.coefficients.length c.literals.length)

@[simp] theorem negation_negation (c : LinearConstraint) : c.negation.negation = c := by
  simp [negation]

@[simp] theorem checkSizes_negation (c : LinearConstraint) :
    c.negation.checkSizes = c.checkSizes := rfl

end LinearConstraint

structure Residue where
  terms : List (Int × DomainId) := []
  rhs : Int
deriving DecidableEq, Repr

namespace Residue

def addWeight (w : Int) (d : DomainId) : List (Int × DomainId) → List (Int × DomainId)
  | [] => [(w, d)]
  | (v, e) :: rest => if e = d then (v + w, e) :: rest else (v, e) :: addWeight w d rest

def add (r : Residue) (w : Int) (l : Literal) : Residue :=
  -- the term of a negated literal is `w` less the term of its domain
  if l.negated then { terms := addWeight (-w) l.domain r.terms, rhs := r.rhs - w }
  else { r with terms := addWeight w l.domain r.terms }

/-- Takes in terms one by one; those of literals with a value go to the right-hand side. -/
def gather (s : Domains) (r : Residue) : List (Int × Literal) → Checked Residue
  | [] => return r
  | (w, l) :: rest => do
    match ← s.read l with
    | some true => gather s { r with rhs := r.rhs - w } rest
    | some false => gather s r rest
    | none => gather s (r.add w l) rest

end Residue

structure NormalSum where
  terms : List (Int × DomainId)
  relation : Relation
  rhs : Int
deriving DecidableEq, Repr

inductive Route where
  | atLeast
  | atMost
  | both
  | generic
deriving DecidableEq, Repr

def Route.name : Route → String
  | atLeast => "at least"
  | atMost => "at most"
  | both => "at least and at most"
  | generic => "generic"

inductive Encoding where
  | counts (all : List (AtLeast.Blueprint Literal))
  | sum (blueprint : WeightedSum.Blueprint Literal)
deriving DecidableEq, Repr

namespace NormalSum

def ofConstraint (c : LinearConstraint) (s : Domains) (limits : Limits) (location : Location) :
    Checked (Except ConstraintError NormalSum) := do
  match (do c.checkSizes; limits.check location c.rhs) with
  | .error e => return .error e
  | .ok rhs =>
    let residue ← Residue.gather s { rhs } (c.coefficients.zip c.literals)
    return do
      let rhs ← limits.check location residue.rhs
      let (relation, rhs) := c.relation.nonStrict rhs
      return { terms := residue.terms.filter fun t => t.1 ≠ 0, relation, rhs }

instance : ToString NormalSum where
  toString n :=
    let sum := if n.terms.isEmpty then "0"
      else " + ".intercalate (n.terms.map fun (w, d) => toString w ++ "*" ++ toString d)
    sum ++ " " ++ toString n.relation ++ " " ++ toString n.rhs

def HoldsEmpty (n : NormalSum) : Prop := n.relation.Holds 0 n.rhs

instance (n : NormalSum) : Decidable n.HoldsEmpty :=
  inferInstanceAs (Decidable (n.relation.Holds 0 n.rhs))

def HasUnitWeights (n : NormalSum) : Prop := ∀ t ∈ n.terms, t.1.natAbs = 1

instance (n : NormalSum) : Decidable n.HasUnitWeights :=
  inferInstanceAs (Decidable (∀ t ∈ n.terms, t.1.natAbs = 1))

def positives (n : NormalSum) : List DomainId :=
  (n.terms.filter fun t => 0 < t.1).map (·.2)

def negatives (n : NormalSum) : List DomainId :=
  (n.terms.filter fun t => ¬ 0 < t.1).map (·.2)

def checkBounds (n : NormalSum) (limits : Limits) (location : Location) :
    Except ConstraintError Unit := do
  -- what is left of the right-hand side when all terms take their greatest, or least, value
  let most := n.terms.foldr (max ·.1 0 + ·) 0
  let least := n.terms.foldr (min ·.1 0 + ·) 0
  let _ ← limits.check location (n.rhs - most)
  let _ ← limits.check location (n.rhs - least)
  return ()

/-- The sum is at least `rhs` when that many of the literals, and one more for every negated
    one, are true. -/
def atLeast (n : NormalSum) (limits : Limits) (location : Location) :
    Except ConstraintError (AtLeast.Blueprint Literal) := do
  let threshold ← limits.check location (n.rhs + n.negatives.length)
  return {
    vars := n.positives.map Literal.positive ++
      n.negatives.map fun d => (Literal.positive d).complement
    threshold }

/-- The sum is at most `rhs` when enough of the complements are true. -/
def atMost (n : NormalSum) (limits : Limits) (location : Location) :
    Except ConstraintError (AtLeast.Blueprint Literal) := do
  let threshold ← limits.check location (n.positives.length - n.rhs)
  return {
    vars := (n.positives.map fun d => (Literal.positive d).complement) ++
      n.negatives.map Literal.positive
    threshold }

def weighted (n : NormalSum) (limits : Limits) (location : Location) :
    Except ConstraintError (WeightedSum.Blueprint Literal) := do
  let weights ← n.terms.mapM fun t => limits.check location t.1
  let rhs ← limits.check location n.rhs
  return {
    weights
    vars := n.terms.map fun t => Literal.positive t.2
    relation := n.relation
    rhs
    control := none }

def route (n : NormalSum) : Route :=
  if n.HasUnitWeights then
    match n.relation with
    | .atLeast => .atLeast
    | .atMost => .atMost
    | .equal => .both
    | _ => .generic
  else .generic

def encode (n : NormalSum) (limits : Limits) (location : Location) :
    Except ConstraintError Encoding := do
  match n.route with
  | .atLeast => return .counts [← n.atLeast limits location]
  | .atMost => return .counts [← n.atMost limits location]
  | .both => return .counts [← n.atLeast limits location, ← n.atMost limits location]
  | .generic => return .sum (← n.weighted limits location)

end NormalSum
end PseudoBoolean
