import PseudoBoolean.Table

/-!
The variables that a counting propagator still waits for. They are numbered from 0 when the
collection is made, and removed by number. A removal moves the last variable into the gap, so the
order of the rest can change; `places` says where a number is now.
-/
namespace PseudoBoolean

def swapRemove {α : Type} (xs : Array α) (i : Nat) : Checked (α × Array α) :=
  if h : i < xs.size then .ok (xs[i], (xs.set i xs[xs.size - 1]).pop)
  else .error (.outOfRange i xs.size)

structure OpenVariables (ν : Type) where
  vars : Array ν
  numbers : Array LocalId
  places : Table LocalId (Option Nat)
deriving DecidableEq, Repr

namespace OpenVariables
variable {ν : Type}

def ofList (xs : List ν) : OpenVariables ν where
  vars := xs.toArray
  numbers := (Array.range xs.length).map LocalId.mk
  places := ⟨(Array.range xs.length).map some⟩

def size (o : OpenVariables ν) : Nat := o.vars.size

def toList (o : OpenVariables ν) : List ν := o.vars.toList

/-- Removes the variable of a number; there is none when it was removed before. -/
def remove (o : OpenVariables ν) (number : LocalId) : Checked (Option ν × OpenVariables ν) := do
  match (o.places.get? number).join with
  | none => return (none, o)
  | some place =>
    let places ← o.places.set number none
    let (removed, vars) ← swapRemove o.vars place
    let (_, numbers) ← swapRemove o.numbers place
    let places ← match numbers[place]? with
      | some moved => places.set moved (some place)
      | none => pure places
    return (some removed, { vars, numbers, places })

def cleared (o : OpenVariables ν) : OpenVariables ν where
  vars := #[]
  numbers := #[]
  places := o.places.map fun _ => none

@[simp] theorem toList_ofList (xs : List ν) : (ofList xs).toList = xs := rfl

@[simp] theorem size_ofList (xs : List ν) : (ofList xs).size = xs.length := rfl

@[simp] theorem toList_cleared (o : OpenVariables ν) : o.cleared.toList = [] := rfl

theorem length_toList (o : OpenVariables ν) : o.toList.length = o.size := rfl

end OpenVariables

theorem size_of_swapRemove {α : Type} {xs ys : Array α} {i : Nat} {a : α}
    (h : swapRemove xs i = .ok (a, ys)) : i < xs.size ∧ ys.size + 1 = xs.size := by
  unfold swapRemove at h
  split at h
  · next hi =>
    obtain ⟨-, rfl⟩ : xs[i] = a ∧ (xs.set i xs[xs.size - 1]).pop = ys := by simpa using h
    refine ⟨hi, ?_⟩
    simp only [Array.size_pop, Array.size_set]
    omega
  · cases h

end PseudoBoolean
