import PseudoBoolean.Table

/-!
The agenda: the propagators that still have to run, each at most once. There is one first-in
first-out lane per priority; `present` lists, in ascending order, the priorities whose lane is
not empty, so that the next propagator is found without a search.
-/
namespace PseudoBoolean

inductive Priority where
  | high
  | medium
  | low
  | veryLow
deriving DecidableEq, Repr

namespace Priority

def code : Priority → Fin 4
  | high => 0
  | medium => 1
  | low => 2
  | veryLow => 3

instance : Inhabited Priority := ⟨veryLow⟩

instance : Ord Priority := ⟨fun p q => compare p.code q.code⟩

theorem code_injective {p q : Priority} (h : p.code = q.code) : p = q := by
  cases p <;> cases q <;> simp [code] at h ⊢

end Priority

structure Agenda where
  lanes : Vector (List PropagatorId) 4 := Vector.replicate 4 []
  isQueued : Table PropagatorId Bool := {}
  numQueued : Nat := 0
  present : List Priority := []
deriving DecidableEq, Repr

namespace Agenda

def lane (a : Agenda) (p : Priority) : List PropagatorId := a.lanes[p.code]

def contains (a : Agenda) (id : PropagatorId) : Bool := (a.isQueued.get? id).getD false

def insertPriority (p : Priority) : List Priority → List Priority
  | [] => [p]
  | q :: rest => if p.code ≤ q.code then p :: q :: rest else q :: insertPriority p rest

/-- A propagator that is on the agenda keeps its place, whatever the priority given now. -/
def enqueue (a : Agenda) (id : PropagatorId) (p : Priority) : Checked Agenda := do
  if a.contains id then
    return a
  let isQueued ← (a.isQueued.extendTo id false).set id true
  return {
    lanes := a.lanes.set p.code (a.lane p ++ [id])
    isQueued
    numQueued := a.numQueued + 1
    present := if (a.lane p).isEmpty then insertPriority p a.present else a.present }

/-- The propagator that waited longest in the first lane that is not empty. -/
def pop (a : Agenda) : Checked (Option PropagatorId × Agenda) :=
  match a.present with
  | [] => return (none, a)
  | p :: later =>
    match a.lane p with
    | [] => return (none, a)
    | id :: waiting => do
      let isQueued ← a.isQueued.set id false
      let numQueued ← decrease a.numQueued 1
      return (some id, {
        lanes := a.lanes.set p.code waiting
        isQueued
        numQueued
        present := if waiting.isEmpty then later else a.present })

def clear (a : Agenda) : Agenda where
  lanes := Vector.replicate 4 []
  isQueued := a.isQueued.map fun _ => false
  numQueued := 0
  present := []

def waiting (a : Agenda) : List PropagatorId :=
  a.lane .high ++ a.lane .medium ++ a.lane .low ++ a.lane .veryLow

@[simp] theorem lane_clear (a : Agenda) (p : Priority) : a.clear.lane p = [] := by
  cases p <;> rfl

@[simp] theorem waiting_clear (a : Agenda) : a.clear.waiting = [] := by
  simp [waiting]

theorem contains_clear (a : Agenda) (id : PropagatorId) : a.clear.contains id = false := by
  simp only [contains, clear, Table.get?, Table.map, Array.getElem?_map]
  cases a.isQueued.elements[Key.index id]? <;> rfl

theorem enqueue_of_contains {a : Agenda} {id : PropagatorId} (h : a.contains id = true)
    (p : Priority) : a.enqueue id p = .ok a := by
  simp [enqueue, h, pure, Except.pure]

end Agenda
end PseudoBoolean
