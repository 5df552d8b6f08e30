import PseudoBoolean.State

/-!
Propagation to a fixpoint. In each round all pending events are delivered to their subscribers,
and then the first propagator of the agenda runs; the state is at a fixpoint when nothing is left
on the agenda. Every round fixes a domain, uses up a replacement or shortens the agenda, which
bounds the number of rounds: `maxRounds`.
-/
namespace PseudoBoolean.State
variable {κ : Type} [PropagatorKinds κ]

/-- Tells one subscriber of an event on a domain; a retired propagator is not told. -/
def deliver (s : State κ) (e : Event) (d : DomainId) (who : Subscriber) :
    Checked (State κ) := do
  match s.roster.get? who.propagator with
  | none => return s
  | some p =>
    let (next, decision) ← p.notify s.domains who.localId e
    let roster ← s.roster.replace who.propagator next
    let agenda ← match decision with
      | .enqueue => s.agenda.enqueue who.propagator next.priority
      | .skip => pure s.agenda
    let statistics := { s.statistics with notifications := s.statistics.notifications + 1 }
    return { s with roster, agenda, statistics }.enter (.notified who e d decision next)

def deliverAll (s : State κ) (e : Event) (d : DomainId) : Checked (State κ) := do
  (← s.subscriptions.subscribers e d).foldlM (deliver · e d) s

def deliverPending (s : State κ) : Checked (State κ) := do
  let (events, domains) ← s.domains.drain
  events.foldlM (fun s (e, d) => s.deliverAll e d) { s with domains }

def retire (s : State κ) (id : PropagatorId) : Checked (State κ) := do
  return { s with
    roster := ← s.roster.retire id
    subscriptions := ← s.subscriptions.unsubscribe id }

def conclude (s : State κ) (id : PropagatorId) : Verdict (AnyBlueprint κ) → Checked (State κ)
  | .atFixpoint => return s
  | .subsumed => do
    let statistics := { s.statistics with subsumptions := s.statistics.subsumptions + 1 }
    retire ({ s with statistics }.remark (.subsumed id)) id
  | .replaceBy b => do
    let statistics := { s.statistics with replacements := s.statistics.replacements + 1 }
    let s ← retire { s with statistics } id
    let (replacement, s) ← s.addPropagator b
    return s.remark (.replaced id replacement)

def runPropagator (s : State κ) (id : PropagatorId) :
    Checked (Except Inconsistency Unit × State κ) := do
  match s.roster.get? id with
  | none => return (.ok (), s)
  | some p =>
    let ((next, outcome), domains) ← (p.propagate id).run s.domains
    let gained ← decrease domains.numFixed s.domains.numFixed
    let roster ← s.roster.replace id next
    let statistics := { s.statistics with
      runs := s.statistics.runs + 1
      propagations := s.statistics.propagations + gained }
    let s := { s with domains, roster, statistics }.enter (.ran id outcome next)
    match outcome with
    | .error i => return (.error i, s)
    | .ok verdict => return (.ok (), ← s.conclude id verdict)

def fixpointWithin : Nat → State κ → Checked (Except Inconsistency Unit × State κ)
  | 0, _ => throw .noFixpoint
  | rounds + 1, s => do
    let s ← s.deliverPending
    let (first, agenda) ← s.agenda.pop
    let s := { s with agenda }
    match first with
    | none => return (.ok (), s)
    | some id =>
      let (outcome, s) ← s.runPropagator id
      match outcome with
      | .ok () => fixpointWithin rounds s
      | .error i =>
        let statistics := { s.statistics with conflicts := s.statistics.conflicts + 1 }
        return (.error i, { s with statistics }.fail i)

def replacementsLeft (s : State κ) : Nat := s.roster.active.foldr (·.replacementsLeft + ·) 0

/-- Between two rounds that fix a domain or replace a propagator, each propagator runs at most
    once. -/
def maxRounds (s : State κ) : Nat :=
  let turns := s.domains.size + s.replacementsLeft + 2
  turns * (s.roster.size + s.replacementsLeft + 1) + 1

def propagate (s : State κ) : Checked (Except Inconsistency Unit × State κ) :=
  match s.failure with
  | some i => return (.error i, s)
  | none => fixpointWithin s.maxRounds s

end PseudoBoolean.State
