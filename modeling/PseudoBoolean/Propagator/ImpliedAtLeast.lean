import PseudoBoolean.Propagator.AtLeast

/-!
The propagator of "if `control` is true, at least `threshold` of these variables are true". It
counts as `AtLeast` does and fixes no variable but the control: to false, once the threshold is
out of reach. A control that becomes true turns it into an `AtLeast` over what is left.
-/
namespace PseudoBoolean

structure ImpliedAtLeast (ν : Type) where
  control : Literal
  controlNumber : LocalId
  unfixed : OpenVariables ν
  threshold : Int
  /-- The size of `unfixed`, counted on its own. -/
  numUnfixed : Nat
deriving DecidableEq, Repr

namespace ImpliedAtLeast
variable {ν : Type}

structure Blueprint (ν : Type) where
  control : Literal
  vars : List ν
  threshold : Int
deriving DecidableEq, Repr

def IsReached (p : ImpliedAtLeast ν) : Prop := p.threshold ≤ 0

def IsUnreachable (p : ImpliedAtLeast ν) : Prop := (p.numUnfixed : Int) < p.threshold

instance (p : ImpliedAtLeast ν) : Decidable p.IsReached :=
  inferInstanceAs (Decidable (p.threshold ≤ 0))

instance (p : ImpliedAtLeast ν) : Decidable p.IsUnreachable :=
  inferInstanceAs (Decidable ((p.numUnfixed : Int) < p.threshold))

variable [Variable ν]

/-- The control is registered after the variables, under the next number. -/
def create (b : Blueprint ν) (s : Domains) :
    Checked (ImpliedAtLeast ν × List Registration) := do
  let (unfixed, numTrue) ← s.separate b.vars
  let controlNumber : LocalId := ⟨unfixed.length⟩
  return (
    { control := b.control
      controlNumber
      unfixed := .ofList unfixed
      threshold := saturatingSub b.threshold numTrue
      numUnfixed := unfixed.length },
    Registration.ofVariables unfixed ++ [⟨b.control, .fixing, controlNumber⟩])

def notify (p : ImpliedAtLeast ν) (number : LocalId) (e : Event) :
    Checked (ImpliedAtLeast ν × Decision) := do
  if number = p.controlNumber then
    return (p, .enqueue)
  match ← p.unfixed.remove number with
  | (none, _) => return (p, .skip)
  | (some x, unfixed) =>
    let numUnfixed ← decrease p.numUnfixed 1
    if numUnfixed ≠ unfixed.size then
      throw (.counterMismatch numUnfixed unfixed.size)
    let next : ImpliedAtLeast ν :=
      { p with
        unfixed
        threshold :=
          if ((Variable.literal x).observe e).value then saturatingSub p.threshold 1
          else p.threshold
        numUnfixed }
    return (next, if next.IsUnreachable ∨ next.IsReached then .enqueue else .skip)

def propagate (p : ImpliedAtLeast ν) :
    Attempt (ImpliedAtLeast ν × Verdict (AtLeast.Blueprint ν)) := do
  match ← Attempt.read p.control with
  | none =>
    if p.IsUnreachable then
      Attempt.require p.control false
      return (p, .subsumed)
    if p.IsReached then
      return (p, .subsumed)
    return (p, .atFixpoint)
  | some true =>
    if p.IsReached then
      return (p, .subsumed)
    return (
      { p with unfixed := p.unfixed.cleared, numUnfixed := 0 },
      .replaceBy { vars := p.unfixed.toList, threshold := p.threshold })
  | some false => return (p, .subsumed)

end ImpliedAtLeast
end PseudoBoolean
