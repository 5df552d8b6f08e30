import PseudoBoolean.Limits
import PseudoBoolean.Propagator
import PseudoBoolean.Propagator.OpenVariables

/-!
The propagator of "at least `threshold` of these variables are true". It waits for the variables
without a value; each event takes one out, and a true one lowers the threshold. It has to act
only when the variables left are just enough, or too few, or no longer needed.
-/
namespace PseudoBoolean

structure AtLeast (ν : Type) where
  unfixed : OpenVariables ν
  threshold : Int
deriving DecidableEq, Repr

namespace AtLeast
variable {ν : Type}

structure Blueprint (ν : Type) where
  vars : List ν
  threshold : Int
deriving DecidableEq, Repr

def IsReached (p : AtLeast ν) : Prop := p.threshold ≤ 0

def IsUnreachable (p : AtLeast ν) : Prop := (p.unfixed.size : Int) < p.threshold

def IsTight (p : AtLeast ν) : Prop := (p.unfixed.size : Int) ≤ p.threshold

instance (p : AtLeast ν) : Decidable p.IsReached :=
  inferInstanceAs (Decidable (p.threshold ≤ 0))

instance (p : AtLeast ν) : Decidable p.IsUnreachable :=
  inferInstanceAs (Decidable ((p.unfixed.size : Int) < p.threshold))

instance (p : AtLeast ν) : Decidable p.IsTight :=
  inferInstanceAs (Decidable ((p.unfixed.size : Int) ≤ p.threshold))

variable [Variable ν]

/-- Variables that have a value by now are counted and dropped. -/
def create (b : Blueprint ν) (s : Domains) : Checked (AtLeast ν × List Registration) := do
  let (unfixed, numTrue) ← s.separate b.vars
  return (
    { unfixed := .ofList unfixed, threshold := saturatingSub b.threshold numTrue },
    Registration.ofVariables unfixed)

def notify (p : AtLeast ν) (number : LocalId) (e : Event) : Checked (AtLeast ν × Decision) := do
  match ← p.unfixed.remove number with
  | (none, _) => return (p, .skip)
  | (some x, unfixed) =>
    let next : AtLeast ν :=
      { unfixed
        threshold :=
          if ((Variable.literal x).observe e).value then saturatingSub p.threshold 1
          else p.threshold }
    return (next, if next.IsReached ∨ next.IsTight then .enqueue else .skip)

def propagate {β : Type} (p : AtLeast ν) (self : PropagatorId) : Attempt (Verdict β) := do
  if p.IsReached then
    return .subsumed
  if p.IsUnreachable then
    throw (.conflict self)
  if p.IsTight then
    Attempt.requireAll p.unfixed.toList true
    return .subsumed
  return .atFixpoint

end AtLeast
end PseudoBoolean
