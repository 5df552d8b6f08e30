import PseudoBoolean.Journal

/-!
The state of a search: the domains, the propagators and what is still to be done. A state fails
when its domains are found to admit no solution, and a failed state stays as it is.
-/
namespace PseudoBoolean

structure Statistics where
  /-- Runs of propagators. -/
  runs : Nat := 0
  /-- Domains fixed by propagators. -/
  propagations : Nat := 0
  notifications : Nat := 0
  conflicts : Nat := 0
  subsumptions : Nat := 0
  replacements : Nat := 0
deriving DecidableEq, Repr

structure State (κ : Type) [PropagatorKinds κ] where
  domains : Domains := {}
  subscriptions : Subscriptions := {}
  roster : Roster κ := {}
  agenda : Agenda := {}
  limits : Limits := .standard
  failure : Option Inconsistency := none
  statistics : Statistics := {}
  journal : Journal κ := #[]

namespace State
variable {κ : Type} [PropagatorKinds κ]

def new (limits : Limits) : State κ := { limits }

def isFailed (s : State κ) : Bool := s.failure.isSome

def enter (s : State κ) (e : Entry κ) : State κ := { s with journal := s.journal.push e }

def remark (s : State κ) (r : Remark) : State κ := s.enter (.remarked r)

def remarks (s : State κ) : List Remark :=
  s.journal.toList.filterMap fun
    | .remarked r => some r
    | _ => none

def giveUp (s : State κ) : State κ := s.remark .constraintUnused

def newLiteral (s : State κ) : Literal × State κ :=
  (.positive s.domains.nextId,
    { s with domains := s.domains.grow, subscriptions := s.subscriptions.grow })

def value (s : State κ) (l : Literal) : Checked (Option Bool) := s.domains.read l

def fail (s : State κ) (i : Inconsistency) : State κ :=
  { s with failure := some i, agenda := s.agenda.clear }

/-- Fixes a literal, as a decision of the search; the propagators learn of it when the state is
    propagated. -/
def assign (s : State κ) (l : Literal) (v : Bool) :
    Checked (Except Inconsistency Unit × State κ) := do
  if let some i := s.failure then
    return (.error i, s)
  let (fixing, domains) ← s.domains.fixVariable l v
  let s := { s with domains }
  return match fixing with
    | .changed | .unchanged => (.ok (), s)
    | .contradicted => (.error .emptyDomain, s.fail .emptyDomain)

/-- Fixes a literal while a constraint is posted; the caller is not told of a contradiction. -/
def fixAtPost (s : State κ) (l : Literal) (v : Bool) : Checked (State κ) := do
  if s.isFailed then
    return s
  let (fixing, domains) ← s.domains.fixVariable l v
  let s := { s with domains }
  return match fixing with
    | .changed | .unchanged => s
    | .contradicted => (s.remark (.postFixFailed l v)).fail .emptyDomain

def failAtPost (s : State κ) (i : Inconsistency) : State κ := if s.isFailed then s else s.fail i

/-- Builds a propagator and puts it on the agenda. It runs when the state is propagated. -/
def addPropagator (s : State κ) (b : AnyBlueprint κ) : Checked (PropagatorId × State κ) := do
  let id := s.roster.nextId
  let (p, registrations) ← b.create s.domains
  let subscriptions ← registrations.foldlM (Subscriptions.register · id) s.subscriptions
  let agenda ← if s.isFailed then pure s.agenda else s.agenda.enqueue id p.priority
  let roster := s.roster.add p
  return (id, { s with subscriptions, agenda, roster }.enter (.created id b s.domains p))

def add {k : κ} (s : State κ) (b : PropagatorKinds.Blueprint k) :
    Checked (Handle k × State κ) := do
  let (id, s) ← s.addPropagator ⟨k, b⟩
  return (⟨id⟩, s)

def find? [DecidableEq κ] {k : κ} (s : State κ) (h : Handle k) :
    Option (PropagatorKinds.Member k) := s.roster.find? h

def activeNames (s : State κ) : List String := s.roster.active.map AnyPropagator.name

end State
end PseudoBoolean
