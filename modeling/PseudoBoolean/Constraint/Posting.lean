import PseudoBoolean.Propagator.Standard
import PseudoBoolean.State

/-!
Posting constraints into a state. A constraint is enforced always (`post`), if a literal is true
(`imply`), or exactly if it is (`reify`). It is brought into normal form for the present values;
what is decided by then is settled at once, and the rest goes to the cheapest propagators. A
constraint that is refused changes nothing but the journal.
-/
namespace PseudoBoolean

/-- A list of kinds that has a place for the standard propagators. -/
class HoldsStandard (κ : Type) [PropagatorKinds κ] where
  blueprint : AnyBlueprint Standard.Kind → AnyBlueprint κ

instance : HoldsStandard Standard.Kind := ⟨id⟩

namespace State
variable {κ : Type} [PropagatorKinds κ] [HoldsStandard κ]

def addStandard (s : State κ) (b : AnyBlueprint Standard.Kind) : Checked (State κ) := do
  return (← s.addPropagator (HoldsStandard.blueprint b)).2

/-- Enforces that enough literals are true, by a propagator only if that is still open. -/
def postCount (s : State κ) (c : AtLeast.Blueprint Literal) : Checked (State κ) := do
  if s.isFailed then
    return s
  let (unfixed, numTrue) ← s.domains.separate c.vars
  let threshold := saturatingSub c.threshold numTrue
  if threshold ≤ 0 then
    return s.remark (.countEntailed threshold unfixed.length)
  if unfixed.length < threshold then
    return (s.remark (.countInfeasible threshold unfixed.length)).failAtPost .infeasibleConstraint
  if unfixed.length ≤ threshold then
    return ← unfixed.foldlM (fixAtPost · · true) s
  s.addStandard ⟨.atLeast .literals, { vars := unfixed, threshold }⟩

def postImpliedCount (s : State κ) (control : Literal) (c : AtLeast.Blueprint Literal) :
    Checked (State κ) := do
  if s.isFailed then
    return s
  match ← s.value control with
  | some false => return s
  | some true => s.postCount c
  | none =>
    let (unfixed, numTrue) ← s.domains.separate c.vars
    let threshold := saturatingSub c.threshold numTrue
    if unfixed.length < threshold then
      return ← (s.remark (.impliedCountInfeasible threshold unfixed.length control)).fixAtPost
        control false
    if threshold ≤ 0 then
      return s.remark (.impliedCountEntailed threshold control)
    s.addStandard ⟨.impliedAtLeast .literals, { control, vars := unfixed, threshold }⟩

def postEncoding (s : State κ) (control : Option Literal) : Encoding → Checked (State κ)
  | .counts all => all.foldlM (fun s c =>
      match control with
      | none => s.postCount c
      | some b => s.postImpliedCount b c) s
  | .sum b => s.addStandard ⟨.weightedSum .literals, { b with control }⟩

def refute (s : State κ) : Option Literal → Checked (State κ)
  | none => return s.failAtPost .infeasibleConstraint
  | some control => s.fixAtPost control false

/-- Posts a constraint into a state that has not failed, under a control without a value or
    under none. -/
def enforce (s : State κ) (control : Option Literal) (location : Location) (c : LinearConstraint) :
    Checked (Except ConstraintError Unit × State κ) := do
  match ← NormalSum.ofConstraint c s.domains s.limits location with
  | .error e => return (.error e, s)
  | .ok n =>
    if n.terms.isEmpty then
      if n.HoldsEmpty then
        return (.ok (), s)
      return (.ok (), ← (s.remark (.violated n control)).refute control)
    if let .error e := n.checkBounds s.limits location then
      return (.error e, s)
    let s := s.remark (.routed n control)
    match n.encode s.limits location with
    | .error e => return (.error e, s)
    | .ok encoding => return (.ok (), ← s.postEncoding control encoding)

def post (s : State κ) (c : LinearConstraint) :
    Checked (Except ConstraintError Unit × State κ) := do
  if let .error e := c.checkSizes then
    return (.error e, s)
  if s.isFailed then
    return (.ok (), s)
  s.enforce none .linear c

def imply (s : State κ) (control : Literal) (c : LinearConstraint) :
    Checked (Except ConstraintError Unit × State κ) := do
  if let .error e := c.checkSizes then
    return (.error e, s)
  if s.isFailed then
    return (.ok (), s)
  match ← s.value control with
  | some false => return (.ok (), s.remark (.vacuous control))
  | some true => s.post c
  | none => s.enforce (some control) .implyLinear c

def reify (s : State κ) (control : Literal) (c : LinearConstraint) :
    Checked (Except ConstraintError Unit × State κ) := do
  match ← s.imply control c with
  | (.error e, s) => return (.error e, s)
  | (.ok (), s) => s.imply control.complement c.negation

def postEach (one : State κ → LinearConstraint → Checked (Except ConstraintError Unit × State κ))
    (s : State κ) : List LinearConstraint → Checked (Except ConstraintError Unit × State κ)
  | [] => return (.ok (), s)
  | c :: rest => do
    match ← one s c with
    -- the constraints before the one that is refused stay posted
    | (.error e, s) => return (.error e, s)
    | (.ok (), s) => postEach one s rest

def postAll (s : State κ) (cs : List LinearConstraint) :
    Checked (Except ConstraintError Unit × State κ) :=
  s.postEach post cs

def implyAll (s : State κ) (control : Literal) (cs : List LinearConstraint) :
    Checked (Except ConstraintError Unit × State κ) :=
  s.postEach (imply · control) cs

end State
end PseudoBoolean
