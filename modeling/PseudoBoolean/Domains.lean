import PseudoBoolean.Table
import PseudoBoolean.Literal

/-!
The store of 0-1 domains. A domain has no value until it is fixed, and then keeps it. Every
fixing is recorded as an event until the events are drained; a domain's flags in `present` say
which of its events are recorded, so that none is recorded twice.
-/
namespace PseudoBoolean

structure PendingEvents where
  present : Table DomainId EventSet := {}
  /-- Oldest first. -/
  events : List (Event × DomainId) := []
deriving DecidableEq, Repr

namespace PendingEvents

def grow (p : PendingEvents) : PendingEvents := { p with present := p.present.push .empty }

def record (p : PendingEvents) (e : Event) (d : DomainId) : Checked PendingEvents := do
  let flags ← p.present.get d
  if flags.contains e then
    return p
  return { present := ← p.present.set d (flags.insert e), events := p.events ++ [(e, d)] }

def drain (p : PendingEvents) : Checked (List (Event × DomainId) × PendingEvents) := do
  let present ← p.events.foldlM (fun present (e, d) => present.update d (·.erase e)) p.present
  return (p.events, { present, events := [] })

end PendingEvents

inductive Fixing where
  | changed
  | unchanged
  /-- The domain has the opposite value; it would have no value left. -/
  | contradicted
deriving DecidableEq, Repr

structure Domains where
  values : Table DomainId (Option Bool) := {}
  pending : PendingEvents := {}
  numFixed : Nat := 0
deriving DecidableEq, Repr

namespace Domains

def size (s : Domains) : Nat := s.values.size

def nextId (s : Domains) : DomainId := ⟨s.size⟩

def grow (s : Domains) : Domains :=
  { s with values := s.values.push none, pending := s.pending.grow }

def value (s : Domains) (d : DomainId) : Checked (Option Bool) := s.values.get d

def fix (s : Domains) (d : DomainId) (v : Bool) : Checked (Fixing × Domains) := do
  match ← s.value d with
  | some current => return (if current = v then .unchanged else .contradicted, s)
  | none =>
    let values ← s.values.set d (some v)
    let pending ← s.pending.record (.ofValue v) d
    return (.changed, { values, pending, numFixed := s.numFixed + 1 })

def drain (s : Domains) : Checked (List (Event × DomainId) × Domains) := do
  let (events, pending) ← s.pending.drain
  return (events, { s with pending })

def read {ν : Type} [Variable ν] (s : Domains) (x : ν) : Checked (Option Bool) := do
  return (← s.value (Variable.literal x).domain).map (Variable.literal x).view

def fixVariable {ν : Type} [Variable ν] (s : Domains) (x : ν) (v : Bool) :
    Checked (Fixing × Domains) :=
  s.fix (Variable.literal x).domain ((Variable.literal x).view v)

/-- What is left of a list of variables when the fixed ones are taken out, and how many of those
    were true. -/
def separate {ν : Type} [Variable ν] (s : Domains) : List ν → Checked (List ν × Nat)
  | [] => return ([], 0)
  | x :: rest => do
    let value ← s.read x
    let (unfixed, numTrue) ← s.separate rest
    return match value with
      | none => (x :: unfixed, numTrue)
      | some true => (unfixed, numTrue + 1)
      | some false => (unfixed, numTrue)

theorem fix_of_fixed {s : Domains} {d : DomainId} {current : Bool}
    (h : s.values.get? d = some (some current)) (v : Bool) :
    s.fix d v = .ok (if current = v then .unchanged else .contradicted, s) := by
  simp [fix, value, Table.get_eq_ok_iff.2 h, bind, Except.bind, pure, Except.pure]

theorem eq_of_fix_of_fixed {s t : Domains} {d : DomainId} {current v : Bool} {r : Fixing}
    (h : s.values.get? d = some (some current)) (fixed : s.fix d v = .ok (r, t)) : t = s := by
  rw [fix_of_fixed h] at fixed
  cases fixed
  rfl

theorem values_of_fix_changed {s t : Domains} {d : DomainId} {v : Bool}
    (h : s.fix d v = .ok (.changed, t)) :
    s.values.get? d = some none ∧ s.values.set d (some v) = .ok t.values ∧
      t.numFixed = s.numFixed + 1 := by
  obtain ⟨current, got, h⟩ := bind_eq_ok_iff.1 h
  cases current with
  | some b =>
    have same := congrArg Prod.fst (pure_eq_ok_iff.1 h)
    dsimp only at same
    split at same <;> cases same
  | none =>
    obtain ⟨values, stored, h⟩ := bind_eq_ok_iff.1 h
    obtain ⟨pending, _, h⟩ := bind_eq_ok_iff.1 h
    obtain ⟨-, rfl⟩ := pure_pair_eq_ok_iff.1 h
    exact ⟨Table.get_eq_ok_iff.1 got, stored, rfl⟩

/-- The stores that fixing domains leads to. -/
inductive LeadsTo : Domains → Domains → Prop where
  | refl (s : Domains) : LeadsTo s s
  | fix {s t u : Domains} {d : DomainId} {v : Bool} {r : Fixing} :
      s.fix d v = .ok (r, t) → LeadsTo t u → LeadsTo s u

theorem LeadsTo.trans {s t u : Domains} (h : LeadsTo s t) (k : LeadsTo t u) : LeadsTo s u := by
  induction h with
  | refl => exact k
  | fix step _ ih => exact .fix step (ih k)

theorem LeadsTo.of_fix {s t : Domains} {d : DomainId} {v : Bool} {r : Fixing}
    (h : s.fix d v = .ok (r, t)) : LeadsTo s t := .fix h (.refl t)

end Domains
end PseudoBoolean
