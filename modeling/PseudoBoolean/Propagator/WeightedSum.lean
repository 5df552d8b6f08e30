import PseudoBoolean.Relation
import PseudoBoolean.Propagator

/-!
The propagator of "if the control is true, the weighted sum of these variables stands in the
relation to `rhs`", for any weights; without a control the relation holds always. It keeps no
counters: every run computes the least and the greatest value that the sum can still take.
-/
namespace PseudoBoolean

/-- The relation is one that is not strict. -/
structure WeightedSum (ν : Type) where
  terms : List (Int × ν)
  relation : Relation
  rhs : Int
  control : Option Literal
deriving DecidableEq, Repr

namespace WeightedSum
variable {ν : Type}

structure Blueprint (ν : Type) where
  weights : List Int
  vars : List ν
  relation : Relation
  rhs : Int
  control : Option Literal
deriving DecidableEq, Repr

/-- The values between which the sum lies, and the terms without a value. -/
structure Bounds (ν : Type) where
  lower : Int
  upper : Int
  unfixed : List (Int × ν)
deriving DecidableEq, Repr

variable [Variable ν]

def create (b : Blueprint ν) : Checked (WeightedSum ν × List Registration) := do
  if b.weights.length ≠ b.vars.length then
    throw (.sizeMismatch b.weights.length b.vars.length)
  let (relation, rhs) := b.relation.nonStrict b.rhs
  -- the control is registered after the variables, under the next number
  let control := b.control.toList.map fun c =>
    ({ literal := c, events := .fixing, localId := ⟨b.vars.length⟩ } : Registration)
  return (
    { terms := b.weights.zip b.vars, relation, rhs, control := b.control },
    Registration.ofVariables b.vars ++ control)

def bounds : List (Int × ν) → Attempt (Bounds ν)
  | [] => return { lower := 0, upper := 0, unfixed := [] }
  | (w, x) :: rest => do
    let value ← Attempt.read x
    let b ← bounds rest
    return match value with
      | some true => { b with lower := b.lower + w, upper := b.upper + w }
      | some false => b
      | none =>
        { lower := b.lower + min w 0
          upper := b.upper + max w 0
          unfixed := (w, x) :: b.unfixed }

/-- Fixes every variable that moves a bound past `rhs` when it takes the value that is bad for
    that bound: the lower bound if the sum must not be more, the upper if it must not be less. -/
def tighten (notMore notLess : Bool) (rhs lower upper : Int) : List (Int × ν) → Attempt Unit
  | [] => return
  | (w, x) :: rest => do
    if (← Attempt.read x).isNone then
      if notMore ∧ rhs < lower + w.natAbs then
        Attempt.require x (w < 0)
      if notLess ∧ upper - w.natAbs < rhs then
        Attempt.require x (0 < w)
    tighten notMore notLess rhs lower upper rest

/-- Keeps the sum away from `rhs`, which only a last term without a value can be forced to do. -/
def avoid (rhs lower : Int) : List (Int × ν) → Attempt Unit
  | [(w, x)] => do
    let fixedPart := lower - min w 0
    if fixedPart = rhs then
      Attempt.require x true
    else if fixedPart + w = rhs then
      Attempt.require x false
  | _ => return

def prune (p : WeightedSum ν) (b : Bounds ν) : Attempt Unit :=
  match p.relation with
  | .atMost | .less => tighten true false p.rhs b.lower b.upper p.terms
  | .atLeast | .greater => tighten false true p.rhs b.lower b.upper p.terms
  | .equal => tighten true true p.rhs b.lower b.upper p.terms
  | .notEqual => avoid p.rhs b.lower b.unfixed

def propagate {β : Type} (p : WeightedSum ν) (self : PropagatorId) : Attempt (Verdict β) := do
  let controlValue ← match p.control with
    | some c => Attempt.read c
    | none => pure (some true)
  if controlValue = some false then
    return .subsumed
  let b ← bounds p.terms
  if p.relation.HoldsThroughout b.lower b.upper p.rhs then
    return .subsumed
  if p.relation.negation.HoldsThroughout b.lower b.upper p.rhs then
    match p.control, controlValue with
    | some c, none =>
      Attempt.require c false
      return .subsumed
    | _, _ => throw (.conflict self)
  -- Nothing follows for the variables while the control may still become false.
  if controlValue.isNone then
    return .atFixpoint
  p.prune b
  return .atFixpoint

end WeightedSum
end PseudoBoolean
