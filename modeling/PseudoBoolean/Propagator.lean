import PseudoBoolean.Agenda
import PseudoBoolean.Subscriptions
import PseudoBoolean.Propagation

/-!
Propagators. A type `κ` with an instance of `PropagatorKinds` lists the kinds of propagator that
a state can hold. For each kind there is the type of its propagators and the type of the
blueprints they are built from, and how a propagator is built, told of an event and run.
-/
namespace PseudoBoolean

inductive Decision where
  | enqueue
  | skip
deriving DecidableEq, Repr

inductive Verdict (β : Type) where
  /-- Running it again would fix nothing. -/
  | atFixpoint
  /-- Its constraint holds whatever the domains without a value become. -/
  | subsumed
  /-- The propagator built from the blueprint takes over the rest of the work. -/
  | replaceBy (blueprint : β)
deriving Repr

def Verdict.map {β γ : Type} (f : β → γ) : Verdict β → Verdict γ
  | atFixpoint => atFixpoint
  | subsumed => subsumed
  | replaceBy b => replaceBy (f b)

structure Registration where
  literal : Literal
  events : EventSet
  localId : LocalId
deriving DecidableEq, Repr

def Registration.ofVariables {ν : Type} [Variable ν] (xs : List ν) : List Registration :=
  xs.zipIdx.map fun (x, i) => ⟨Variable.literal x, .fixing, ⟨i⟩⟩

def Subscriptions.register (s : Subscriptions) (id : PropagatorId) (r : Registration) :
    Checked Subscriptions :=
  s.subscribeVariable ⟨id, r.localId⟩ r.literal r.events

class PropagatorKinds (κ : Type) where
  Member : κ → Type
  Blueprint : κ → Type
  /-- Builds a propagator for the present values, with its registrations in order. -/
  create (k : κ) : Blueprint k → Domains → Checked (Member k × List Registration)
  name (k : κ) : Member k → String
  priority (k : κ) : Member k → Priority
  notify (k : κ) : Member k → Domains → LocalId → Event → Checked (Member k × Decision)
  propagate (k : κ) : Member k → PropagatorId →
    Propagation (Member k × Except Inconsistency (Verdict ((k : κ) × Blueprint k)))
  /-- How often the propagator and those that take over from it may still be replaced. -/
  replacementsLeft (k : κ) : Member k → Nat

variable (κ : Type) [PropagatorKinds κ]

abbrev AnyPropagator := (k : κ) × PropagatorKinds.Member k

abbrev AnyBlueprint := (k : κ) × PropagatorKinds.Blueprint k

variable {κ}

namespace AnyPropagator

def name (p : AnyPropagator κ) : String := PropagatorKinds.name p.1 p.2

def priority (p : AnyPropagator κ) : Priority := PropagatorKinds.priority p.1 p.2

def replacementsLeft (p : AnyPropagator κ) : Nat := PropagatorKinds.replacementsLeft p.1 p.2

def notify (p : AnyPropagator κ) (s : Domains) (x : LocalId) (e : Event) :
    Checked (AnyPropagator κ × Decision) := do
  let (next, decision) ← PropagatorKinds.notify p.1 p.2 s x e
  return (⟨p.1, next⟩, decision)

def propagate (p : AnyPropagator κ) (self : PropagatorId) :
    Propagation (AnyPropagator κ × Except Inconsistency (Verdict (AnyBlueprint κ))) := do
  let (next, outcome) ← PropagatorKinds.propagate p.1 p.2 self
  return (⟨p.1, next⟩, outcome)

end AnyPropagator

def AnyBlueprint.create (b : AnyBlueprint κ) (s : Domains) :
    Checked (AnyPropagator κ × List Registration) := do
  let (made, registrations) ← PropagatorKinds.create b.1 b.2 s
  return (⟨b.1, made⟩, registrations)

structure Handle (k : κ) where
  id : PropagatorId
deriving DecidableEq, Repr

/-- The propagators of a state by identifier. An empty place belongs to a retired propagator. -/
structure Roster (κ : Type) [PropagatorKinds κ] where
  places : Table PropagatorId (Option (AnyPropagator κ)) := {}
  numActive : Nat := 0

namespace Roster

def size (r : Roster κ) : Nat := r.places.size

def nextId (r : Roster κ) : PropagatorId := ⟨r.size⟩

def add (r : Roster κ) (p : AnyPropagator κ) : Roster κ where
  places := r.places.push (some p)
  numActive := r.numActive + 1

def get? (r : Roster κ) (id : PropagatorId) : Option (AnyPropagator κ) :=
  (r.places.get? id).join

def find? [DecidableEq κ] (r : Roster κ) {k : κ} (h : Handle k) :
    Option (PropagatorKinds.Member k) :=
  match r.get? h.id with
  | some ⟨k', p⟩ => if same : k' = k then some (same ▸ p) else none
  | none => none

def replace (r : Roster κ) (id : PropagatorId) (p : AnyPropagator κ) : Checked (Roster κ) := do
  return { r with places := ← r.places.set id (some p) }

def retire (r : Roster κ) (id : PropagatorId) : Checked (Roster κ) := do
  match r.get? id with
  | none => return r
  | some _ =>
    return { places := ← r.places.set id none, numActive := ← decrease r.numActive 1 }

def active (r : Roster κ) : List (AnyPropagator κ) := r.places.toList.filterMap id

def names (r : Roster κ) : List String :=
  r.places.toList.map fun place => (place.map AnyPropagator.name).getD "<retired>"

theorem get?_add (r : Roster κ) (p : AnyPropagator κ) (id : PropagatorId) :
    (r.add p).get? id = if id = r.nextId then some p else r.get? id := by
  have last : Key.index id = r.places.size ↔ id = r.nextId :=
    ⟨fun e => congrArg PropagatorId.mk e, fun e => congrArg PropagatorId.index e⟩
  unfold get? add
  rw [Table.get?_push]
  by_cases h : id = r.nextId
  · rw [if_pos h, if_pos (last.2 h)]
    rfl
  · rw [if_neg h, if_neg fun e => h (last.1 e)]

theorem get?_of_replace {r t : Roster κ} {id : PropagatorId} {p : AnyPropagator κ}
    (h : r.replace id p = .ok t) (j : PropagatorId) :
    t.get? j = if j = id then some p else r.get? j := by
  obtain ⟨places, stored, h⟩ := bind_eq_ok_iff.1 h
  rw [← pure_eq_ok_iff.1 h, get?, Table.get?_of_set stored, get?]
  simp only [PropagatorId.index_inj]
  split <;> rfl

theorem size_of_replace {r t : Roster κ} {id : PropagatorId} {p : AnyPropagator κ}
    (h : r.replace id p = .ok t) : t.size = r.size := by
  obtain ⟨places, stored, h⟩ := bind_eq_ok_iff.1 h
  rw [← pure_eq_ok_iff.1 h]
  exact Table.size_of_set stored

theorem get?_of_retire {r t : Roster κ} {id : PropagatorId} (h : r.retire id = .ok t)
    (j : PropagatorId) : t.get? j = if j = id then none else r.get? j := by
  unfold retire at h
  cases found : r.get? id with
  | none =>
    rw [found] at h
    rw [← pure_eq_ok_iff.1 h]
    split
    · next same => rw [same, found]
    · rfl
  | some p =>
    rw [found] at h
    obtain ⟨places, stored, h⟩ := bind_eq_ok_iff.1 h
    obtain ⟨numActive, -, h⟩ := bind_eq_ok_iff.1 h
    rw [← pure_eq_ok_iff.1 h, get?, Table.get?_of_set stored, get?]
    simp only [PropagatorId.index_inj]
    split <;> rfl

theorem size_of_retire {r t : Roster κ} {id : PropagatorId} (h : r.retire id = .ok t) :
    t.size = r.size := by
  unfold retire at h
  cases found : r.get? id with
  | none =>
    rw [found] at h
    rw [← pure_eq_ok_iff.1 h]
  | some p =>
    rw [found] at h
    obtain ⟨places, stored, h⟩ := bind_eq_ok_iff.1 h
    obtain ⟨numActive, -, h⟩ := bind_eq_ok_iff.1 h
    rw [← pure_eq_ok_iff.1 h]
    exact Table.size_of_set stored

theorem active_add (r : Roster κ) (p : AnyPropagator κ) : (r.add p).active = r.active ++ [p] := by
  simp [active, add]

end Roster
end PseudoBoolean
