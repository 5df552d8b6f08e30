import PseudoBoolean.Fault
import PseudoBoolean.Key

/-!
Arrays indexed by identifiers. `get?` looks a key up; `get`, `set` and `update` are for keys that
the caller knows to be present, and are a fault on any other. `extendTo` makes a key present.
-/
namespace PseudoBoolean

structure Table (κ α : Type) where
  elements : Array α := #[]
deriving DecidableEq, Repr

namespace Table
variable {κ α : Type}

def ofList (xs : List α) : Table κ α := ⟨xs.toArray⟩

def toList (t : Table κ α) : List α := t.elements.toList

def size (t : Table κ α) : Nat := t.elements.size

def isEmpty (t : Table κ α) : Bool := t.elements.isEmpty

def push (t : Table κ α) (a : α) : Table κ α := ⟨t.elements.push a⟩

def map (f : α → α) (t : Table κ α) : Table κ α := ⟨t.elements.map f⟩

variable [Key κ]

def lastKey (t : Table κ α) : κ := Key.ofIndex (t.size - 1)

def get? (t : Table κ α) (k : κ) : Option α := t.elements[Key.index k]?

def get (t : Table κ α) (k : κ) : Checked α :=
  match t.get? k with
  | some a => .ok a
  | none => .error (.outOfRange (Key.index k) t.size)

def set (t : Table κ α) (k : κ) (a : α) : Checked (Table κ α) :=
  if h : Key.index k < t.elements.size then .ok ⟨t.elements.set (Key.index k) a h⟩
  else .error (.outOfRange (Key.index k) t.size)

def update (t : Table κ α) (k : κ) (f : α → α) : Checked (Table κ α) := do
  t.set k (f (← t.get k))

def extendTo (t : Table κ α) (k : κ) (a : α) : Table κ α :=
  ⟨t.elements ++ Array.replicate (Key.index k + 1 - t.size) a⟩

omit [Key κ] in
@[simp] theorem toList_ofList (xs : List α) : (ofList xs : Table κ α).toList = xs := rfl

omit [Key κ] in
@[simp] theorem toList_push (t : Table κ α) (a : α) : (t.push a).toList = t.toList ++ [a] := by
  simp [push, toList]

omit [Key κ] in
@[simp] theorem toList_map (f : α → α) (t : Table κ α) : (t.map f).toList = t.toList.map f := by
  simp [map, toList]

omit [Key κ] in
theorem length_toList (t : Table κ α) : t.toList.length = t.size := rfl

omit [Key κ] in
@[simp] theorem size_push (t : Table κ α) (a : α) : (t.push a).size = t.size + 1 := by
  simp [push, size]

omit [Key κ] in
@[simp] theorem size_map (f : α → α) (t : Table κ α) : (t.map f).size = t.size := by
  simp [map, size]

theorem get?_eq_getElem? (t : Table κ α) (k : κ) : t.get? k = t.toList[Key.index k]? := by
  simp [get?, toList]

theorem get?_push (t : Table κ α) (a : α) (k : κ) :
    (t.push a).get? k = if Key.index k = t.size then some a else t.get? k := by
  unfold get? push
  rw [Array.getElem?_push]
  rfl

theorem get?_eq_none_iff (t : Table κ α) (k : κ) : t.get? k = none ↔ t.size ≤ Key.index k := by
  simp [get?, size]

theorem get_eq_ok_iff {t : Table κ α} {k : κ} {a : α} : t.get k = .ok a ↔ t.get? k = some a := by
  unfold get
  split <;> simp_all

theorem set_eq_ok_iff {t u : Table κ α} {k : κ} {a : α} :
    t.set k a = .ok u ↔
      Key.index k < t.size ∧ u = ⟨t.elements.setIfInBounds (Key.index k) a⟩ := by
  unfold set size
  split
  · next h => simp [Array.setIfInBounds, h, eq_comm]
  · next h => simp [h]

theorem get?_of_set {t u : Table κ α} {k : κ} {a : α} (h : t.set k a = .ok u) (j : κ) :
    u.get? j = if Key.index j = Key.index k then some a else t.get? j := by
  obtain ⟨hk, rfl⟩ := set_eq_ok_iff.1 h
  unfold size at hk
  simp only [get?, Array.getElem?_setIfInBounds]
  by_cases hj : Key.index k = Key.index j
  · rw [if_pos hj, if_pos hj.symm, if_pos hk]
  · rw [if_neg hj, if_neg (Ne.symm hj)]

theorem size_of_set {t u : Table κ α} {k : κ} {a : α} (h : t.set k a = .ok u) :
    u.size = t.size := by
  obtain ⟨_, rfl⟩ := set_eq_ok_iff.1 h
  simp [size]

theorem split_of_get? {t : Table κ α} {k : κ} {a : α} (h : t.get? k = some a) :
    ∃ front back, t.toList = front ++ a :: back ∧
      ∀ {b u}, t.set k b = .ok u → u.toList = front ++ b :: back := by
  rw [get?_eq_getElem?] at h
  obtain ⟨inside, found⟩ := List.getElem?_eq_some_iff.1 h
  refine ⟨t.toList.take (Key.index k), t.toList.drop (Key.index k + 1), ?_, ?_⟩
  · rw [← found, List.getElem_cons_drop, List.take_append_drop]
  · intro b u stored
    obtain ⟨-, rfl⟩ := set_eq_ok_iff.1 stored
    rw [toList, Array.toList_setIfInBounds, List.set_eq_take_append_cons_drop]
    exact if_pos inside

theorem size_extendTo (t : Table κ α) (k : κ) (a : α) :
    (t.extendTo k a).size = max t.size (Key.index k + 1) := by
  simp only [extendTo, size, Array.size_append, Array.size_replicate]
  omega

theorem get?_extendTo (t : Table κ α) (k j : κ) (a : α) :
    (t.extendTo k a).get? j =
      if Key.index j < t.size then t.get? j
      else if Key.index j ≤ Key.index k then some a else none := by
  unfold get? extendTo
  rw [Array.getElem?_append, Array.getElem?_replicate]
  by_cases hj : Key.index j < t.size
  · rw [if_pos hj]
    exact if_pos hj
  · rw [if_neg hj]
    refine (if_neg hj).trans ?_
    by_cases hk : Key.index j ≤ Key.index k
    · rw [if_pos hk, if_pos (by unfold size at *; omega)]
    · rw [if_neg hk, if_neg (by unfold size at *; omega)]

end Table
end PseudoBoolean
