import PseudoBoolean.Table
import PseudoBoolean.Literal

/-!
Who is told about which event. A subscriber is a variable of a propagator; every domain keeps,
for each of its two events, its subscribers in the order in which they first asked. The domains
that a propagator has asked for are listed with it, so that it can be taken out of all lists
without looking at the others.
-/
namespace PseudoBoolean

structure Subscriber where
  propagator : PropagatorId
  localId : LocalId
deriving DecidableEq, Repr

structure Audience where
  onTrue : List Subscriber := []
  onFalse : List Subscriber := []
deriving DecidableEq, Repr

namespace Audience

def hearing (a : Audience) : Event → List Subscriber
  | .fixedTrue => a.onTrue
  | .fixedFalse => a.onFalse

def join (s : Subscriber) (l : List Subscriber) : List Subscriber :=
  if s ∈ l then l else l ++ [s]

def enlist (a : Audience) (s : Subscriber) (events : EventSet) : Audience where
  onTrue := if events.onTrue then join s a.onTrue else a.onTrue
  onFalse := if events.onFalse then join s a.onFalse else a.onFalse

def dismiss (a : Audience) (p : PropagatorId) : Audience where
  onTrue := a.onTrue.filter (·.propagator ≠ p)
  onFalse := a.onFalse.filter (·.propagator ≠ p)

def size (a : Audience) : Nat := a.onTrue.length + a.onFalse.length

theorem hearing_enlist (a : Audience) (s : Subscriber) (events : EventSet) (e : Event) :
    (a.enlist s events).hearing e =
      if events.contains e then join s (a.hearing e) else a.hearing e := by
  cases e <;> rfl

theorem hearing_dismiss (a : Audience) (p : PropagatorId) (e : Event) :
    (a.dismiss p).hearing e = (a.hearing e).filter (·.propagator ≠ p) := by
  cases e <;> rfl

theorem mem_join {s t : Subscriber} {l : List Subscriber} : t ∈ join s l ↔ t = s ∨ t ∈ l := by
  unfold join
  split
  · next h => exact ⟨Or.inr, fun k => k.elim (fun e => e ▸ h) id⟩
  · rw [List.mem_append, List.mem_singleton, or_comm]

end Audience

structure Subscriptions where
  audiences : Table DomainId Audience := {}
  watched : Table PropagatorId (List DomainId) := {}
deriving DecidableEq, Repr

namespace Subscriptions

def grow (s : Subscriptions) : Subscriptions := { s with audiences := s.audiences.push {} }

def subscribers (s : Subscriptions) (e : Event) (d : DomainId) : Checked (List Subscriber) := do
  return (← s.audiences.get d).hearing e

def subscribe (s : Subscriptions) (who : Subscriber) (d : DomainId) (events : EventSet) :
    Checked Subscriptions := do
  let watched ← (s.watched.extendTo who.propagator []).update who.propagator fun domains =>
    if d ∈ domains then domains else domains ++ [d]
  return { audiences := ← s.audiences.update d (·.enlist who events), watched }

def subscribeVariable {ν : Type} [Variable ν] (s : Subscriptions) (who : Subscriber) (x : ν)
    (events : EventSet) : Checked Subscriptions :=
  s.subscribe who (Variable.literal x).domain ((Variable.literal x).domainEvents events)

def unsubscribe (s : Subscriptions) (p : PropagatorId) : Checked Subscriptions := do
  match s.watched.get? p with
  | none => return s
  | some domains =>
    let audiences ← domains.foldlM (fun audiences d => audiences.update d (·.dismiss p)) s.audiences
    return { audiences, watched := ← s.watched.set p [] }

def size (s : Subscriptions) : Nat := s.audiences.toList.foldr (·.size + ·) 0

theorem unsubscribe_of_unknown {s : Subscriptions} {p : PropagatorId}
    (h : s.watched.get? p = none) : s.unsubscribe p = .ok s := by
  simp [unsubscribe, h, pure, Except.pure]

end Subscriptions
end PseudoBoolean
