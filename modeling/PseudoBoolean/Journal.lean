import PseudoBoolean.Constraint.NormalSum

/-!
What a state writes down about its work. Every propagator that is created, told of an event or
run has an entry with the propagator as that left it; remarks are the entries that are printed.
Nothing in a state depends on its journal.
-/
namespace PseudoBoolean

inductive Level where
  | trace
  | debug
  | warn
deriving DecidableEq, Repr

def Level.name : Level → String
  | trace => "TRACE"
  | debug => "DEBUG"
  | warn => "WARN"

inductive Remark where
  | subsumed (id : PropagatorId)
  | replaced (id replacement : PropagatorId)
  | postFixFailed (literal : Literal) (value : Bool)
  | countEntailed (threshold : Int) (numLiterals : Nat)
  | countInfeasible (threshold : Int) (numLiterals : Nat)
  | impliedCountEntailed (threshold : Int) (control : Literal)
  | impliedCountInfeasible (threshold : Int) (numLiterals : Nat) (control : Literal)
  | vacuous (control : Literal)
  /-- A sum without terms is violated: the control becomes false or, without one, the state
      fails. -/
  | violated (sum : NormalSum) (control : Option Literal)
  | routed (sum : NormalSum) (control : Option Literal)
  | constraintUnused
deriving DecidableEq, Repr

namespace Remark

def level : Remark → Level
  | subsumed _ | replaced _ _ | postFixFailed _ _ => .trace
  | countEntailed _ _ | countInfeasible _ _ => .trace
  | impliedCountEntailed _ _ | impliedCountInfeasible _ _ _ => .trace
  | vacuous _ | violated _ _ | routed _ _ => .debug
  | constraintUnused => .warn

def message : Remark → String
  | subsumed id => s!"{id} is subsumed"
  | replaced id replacement => s!"{id} is rewritten into {replacement}"
  | postFixFailed literal value => s!"fixing {literal} to {value} at post time failed the state"
  | countEntailed threshold n => s!"sum >= {threshold} over {n} literals is entailed"
  | countInfeasible threshold n => s!"sum >= {threshold} over {n} literals is infeasible"
  | impliedCountEntailed threshold control =>
    s!"sum >= {threshold} implied by {control} is entailed"
  | impliedCountInfeasible threshold n control =>
    s!"{n} literals cannot reach {threshold}, fixing {control} to false"
  | vacuous control => s!"{control} is false, the implied linear is vacuous"
  | violated sum none => s!"{sum} does not hold, failing the state"
  | violated sum (some control) => s!"{sum} does not hold, fixing {control} to false"
  | routed sum none => s!"{sum}: {sum.route.name}"
  | routed sum (some control) => s!"{control} -> {sum}: {sum.route.name}"
  | constraintUnused => "A constraint poster is never used, this is likely a mistake."

def line (r : Remark) : String := r.level.name ++ " " ++ r.message

end Remark

inductive Entry (κ : Type) [PropagatorKinds κ] where
  /-- `seen` is the store for which the propagator was built. -/
  | created (id : PropagatorId) (blueprint : AnyBlueprint κ) (seen : Domains)
      (made : AnyPropagator κ)
  | notified (who : Subscriber) (event : Event) (domain : DomainId) (decision : Decision)
      (after : AnyPropagator κ)
  | ran (id : PropagatorId) (outcome : Except Inconsistency (Verdict (AnyBlueprint κ)))
      (after : AnyPropagator κ)
  | remarked (remark : Remark)

abbrev Journal (κ : Type) [PropagatorKinds κ] := Array (Entry κ)

end PseudoBoolean
