import PseudoBoolean.Propagator.ImpliedAtLeast
import PseudoBoolean.Propagator.WeightedSum

/-!
The standard kinds of propagator: the three constraints, each over literals or over domains.
-/
namespace PseudoBoolean.Standard

inductive Over where
  | literals
  | domains
deriving DecidableEq, Repr

def Over.Var : Over → Type
  | literals => Literal
  | domains => DomainId

instance (o : Over) : Variable o.Var :=
  match o with
  | .literals => inferInstanceAs (Variable Literal)
  | .domains => inferInstanceAs (Variable DomainId)

inductive Kind where
  | atLeast (o : Over)
  | impliedAtLeast (o : Over)
  | weightedSum (o : Over)
deriving DecidableEq, Repr

namespace Kind

def Member : Kind → Type
  | atLeast o => AtLeast o.Var
  | impliedAtLeast o => ImpliedAtLeast o.Var
  | weightedSum o => WeightedSum o.Var

def Blueprint : Kind → Type
  | atLeast o => AtLeast.Blueprint o.Var
  | impliedAtLeast o => ImpliedAtLeast.Blueprint o.Var
  | weightedSum o => WeightedSum.Blueprint o.Var

def create : (k : Kind) → k.Blueprint → Domains → Checked (k.Member × List Registration)
  | atLeast _, b, s => AtLeast.create b s
  | impliedAtLeast _, b, s => ImpliedAtLeast.create b s
  | weightedSum _, b, _ => WeightedSum.create b

def name : Kind → String
  | atLeast _ => "GreaterOrEqual"
  | impliedAtLeast _ => "ImpliedGreaterOrEqual"
  | weightedSum _ => "BooleanLinear"

/-- Counting is cheap and goes before the sums. -/
def priority : Kind → Priority
  | atLeast _ => .high
  | impliedAtLeast _ => .high
  | weightedSum _ => .low

def notify : (k : Kind) → k.Member → LocalId → Event → Checked (k.Member × Decision)
  | atLeast _, p, number, e => AtLeast.notify p number e
  | impliedAtLeast _, p, number, e => ImpliedAtLeast.notify p number e
  -- a sum keeps no counters to decide by
  | weightedSum _, p, _, _ => return (p, .enqueue)

def propagate : (k : Kind) → k.Member → PropagatorId →
    Propagation (k.Member × Except Inconsistency (Verdict ((k : Kind) × k.Blueprint)))
  | atLeast _, p, self => Attempt.keeping p do return (p, ← AtLeast.propagate p self)
  | impliedAtLeast o, p, _ => Attempt.keeping p do
    let (next, verdict) ← ImpliedAtLeast.propagate p
    return (next, verdict.map fun b => ⟨atLeast o, b⟩)
  | weightedSum _, p, self => Attempt.keeping p do return (p, ← WeightedSum.propagate p self)

def replacementsLeft : Kind → Nat
  | atLeast _ => 0
  | impliedAtLeast _ => 1
  | weightedSum _ => 0

end Kind

instance : PropagatorKinds Kind where
  Member := Kind.Member
  Blueprint := Kind.Blueprint
  create := Kind.create
  name k _ := k.name
  priority k _ := k.priority
  notify k p _ number e := k.notify p number e
  propagate := Kind.propagate
  replacementsLeft k _ := k.replacementsLeft

end PseudoBoolean.Standard
