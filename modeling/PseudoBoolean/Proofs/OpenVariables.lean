import Mathlib.Data.List.Perm.Basic
import PseudoBoolean.Propagator.OpenVariables

/-!
Removal by number. `at?` is the variable that a number still stands for. A removal forgets one
number and takes its variable out; it moves another variable, but every other number keeps its own.
-/
namespace PseudoBoolean

theorem getElem?_of_swapRemove {α : Type} {xs ys : Array α} {i : Nat} {a : α}
    (h : swapRemove xs i = .ok (a, ys)) :
    xs[i]? = some a ∧ ∀ j, ys[j]? =
      if j + 1 < xs.size then if j = i then xs[xs.size - 1]? else xs[j]? else none := by
  unfold swapRemove at h
  split at h
  case isFalse => cases h
  next inside =>
  obtain ⟨rfl, rfl⟩ := Prod.mk.inj (Except.ok.inj h)
  refine ⟨Array.getElem?_eq_getElem inside, ?_⟩
  intro j
  rw [Array.getElem?_pop, Array.size_set, Array.getElem?_set]
  have last : xs.size - 1 < xs.size := by omega
  by_cases bound : j + 1 < xs.size
  · rw [if_pos bound, if_pos (by omega), Array.getElem?_eq_getElem last]
    simp only [eq_comm]
  · rw [if_neg bound, if_neg (by omega)]

theorem perm_of_swapRemove {α : Type} {xs ys : Array α} {i : Nat} {a : α}
    (h : swapRemove xs i = .ok (a, ys)) : xs.toList.Perm (a :: ys.toList) := by
  unfold swapRemove at h
  split at h
  case isFalse => cases h
  next inside =>
  obtain ⟨rfl, rfl⟩ := Prod.mk.inj (Except.ok.inj h)
  obtain ⟨l⟩ := xs
  obtain ⟨front, last, rfl⟩ : ∃ front last, l = front ++ [last] :=
    ⟨l.dropLast, l.getLast (by intro e; subst e; simp at inside),
      (List.dropLast_append_getLast _).symm⟩
  simp only [List.size_toArray, List.length_append, List.length_singleton] at inside
  by_cases inner : i < front.length
  · have moved : (((front ++ [last]).toArray.set i last (by simpa using inside)).pop).toList =
        front.set i last := by simp [inner]
    have inAll : i < (front ++ [last]).length := by simpa using inside
    have at_i : (front ++ [last])[i] = front[i] := List.getElem_append_left inner
    have removed := (List.getElem_cons_eraseIdx_perm inner).symm
    have placed := List.set_perm_cons_eraseIdx inner last
    simp only [List.size_toArray, List.length_append, List.length_singleton,
      Nat.add_sub_cancel, List.getElem_toArray, List.getElem_concat_length, moved, at_i]
    exact ((List.perm_append_singleton last front).trans (removed.cons last)).trans
      ((List.Perm.swap _ _ _).trans (placed.symm.cons _))
  · obtain rfl : i = front.length := by omega
    simp

namespace OpenVariables
variable {ν : Type}

def at? (o : OpenVariables ν) (number : LocalId) : Option ν :=
  (o.places.get? number).join.bind fun place => o.vars[place]?

/-- `places` is the inverse of `numbers`. -/
structure Consistent (o : OpenVariables ν) : Prop where
  sizes : o.numbers.size = o.vars.size
  placed : ∀ {number place}, (o.places.get? number).join = some place ↔
    o.numbers[place]? = some number

theorem consistent_ofList (xs : List ν) : (ofList xs).Consistent := by
  constructor
  · simp [ofList]
  · intro number place
    simp only [ofList, Table.get?, key_index_local, Array.getElem?_map, Array.getElem?_range,
      Option.join_eq_some_iff, Option.map_eq_some_iff]
    obtain ⟨n⟩ := number
    constructor
    · rintro ⟨i, found, same⟩
      obtain rfl := Option.some.inj same
      split at found <;> cases found
      next inside => exact ⟨n, by rw [if_pos inside], rfl⟩
    · rintro ⟨i, found, same⟩
      cases same
      split at found <;> cases found
      next inside => exact ⟨_, by rw [if_pos inside], rfl⟩

theorem at?_ofList (xs : List ν) (number : LocalId) :
    (ofList xs).at? number = xs[number.index]? := by
  simp only [at?, ofList, Table.get?, key_index_local, Array.getElem?_map, Array.getElem?_range]
  split
  · simp
  · next outside => simp [Nat.le_of_not_lt outside]

theorem mem_of_at? {o : OpenVariables ν} {number : LocalId} {x : ν} (h : o.at? number = some x) :
    x ∈ o.toList := by
  obtain ⟨place, -, found⟩ := Option.bind_eq_some_iff.1 h
  exact Array.mem_toList_iff.2 (Array.mem_of_getElem? found)

theorem exists_at? {o : OpenVariables ν} (consistent : o.Consistent) {x : ν} (h : x ∈ o.toList) :
    ∃ number, o.at? number = some x := by
  obtain ⟨place, inside, found⟩ := Array.mem_iff_getElem.1 (Array.mem_toList_iff.1 h)
  have numbered : place < o.numbers.size := by rw [consistent.sizes]; exact inside
  refine ⟨o.numbers[place], ?_⟩
  rw [at?, consistent.placed.2 (Array.getElem?_eq_getElem numbered), Option.bind_some,
    Array.getElem?_eq_getElem inside, found]

theorem remove_of_unplaced {o : OpenVariables ν} {number : LocalId}
    (unplaced : (o.places.get? number).join = none) : o.remove number = .ok (none, o) := by
  simp [remove, unplaced, pure, Except.pure]

theorem Consistent.place_unique {o : OpenVariables ν} (consistent : o.Consistent) {i j : Nat}
    {k : LocalId} (hi : o.numbers[i]? = some k) (hj : o.numbers[j]? = some k) : i = j := by
  have pi := consistent.placed.2 hi
  rw [consistent.placed.2 hj] at pi
  exact (Option.some.inj pi).symm

/-- Entry by entry, what becomes of the three tables: the last variable and its number move to
    `place`, and the number that stood there is forgotten. -/
structure Removal (o q : OpenVariables ν) (number : LocalId) (place : Nat) : Prop where
  placed : (o.places.get? number).join = some place
  vars : ∀ j, q.vars[j]? =
    if j + 1 < o.vars.size then if j = place then o.vars[o.vars.size - 1]? else o.vars[j]? else none
  numbers : ∀ j, q.numbers[j]? =
    if j + 1 < o.numbers.size then
      if j = place then o.numbers[o.numbers.size - 1]? else o.numbers[j]?
    else none
  places : ∀ k, (q.places.get? k).join =
    if q.numbers[place]? = some k then some place
    else if k = number then none else (o.places.get? k).join

theorem removal_of_remove {o q : OpenVariables ν} {number : LocalId} {r : Option ν} {place : Nat}
    (placed : (o.places.get? number).join = some place) (h : o.remove number = .ok (r, q)) :
    o.Removal q number place ∧ q.numbers.size + 1 = o.numbers.size ∧
      ∃ x, r = some x ∧ swapRemove o.vars place = .ok (x, q.vars) := by
  unfold remove at h
  rw [placed] at h
  obtain ⟨places, forgotten, h⟩ := bind_eq_ok_iff.1 h
  obtain ⟨⟨x, vars⟩, taken, h⟩ := bind_eq_ok_iff.1 h
  obtain ⟨⟨y, numbers⟩, renumbered, h⟩ := bind_eq_ok_iff.1 h
  dsimp only at h
  have lookup : ∀ k, (places.get? k).join =
      if k = number then none else (o.places.get? k).join := by
    intro k
    simp only [Table.get?_of_set forgotten k, LocalId.index_inj]
    split <;> rfl
  have smaller := (size_of_swapRemove renumbered).2
  have entries := (getElem?_of_swapRemove taken).2
  have labels := (getElem?_of_swapRemove renumbered).2
  cases moved : numbers[place]? with
  | none =>
    rw [moved] at h
    obtain ⟨rfl, rfl⟩ := pure_pair_eq_ok_iff.1 h
    refine ⟨⟨placed, entries, labels, ?_⟩, smaller, x, rfl, taken⟩
    intro k
    simp only [moved, reduceCtorEq, if_false]
    exact lookup k
  | some m =>
    rw [moved] at h
    obtain ⟨updated, put, h⟩ := bind_eq_ok_iff.1 h
    obtain ⟨rfl, rfl⟩ := pure_pair_eq_ok_iff.1 h
    refine ⟨⟨placed, entries, labels, ?_⟩, smaller, x, rfl, taken⟩
    intro k
    simp only [moved, Option.some.injEq, Table.get?_of_set put k, LocalId.index_inj,
      eq_comm (a := m)]
    split
    · rfl
    · exact lookup k

namespace Removal
variable {o q : OpenVariables ν} {number k : LocalId} {place i : Nat}

theorem last_moved (h : o.Removal q number place) (moved : q.numbers[place]? = some k) :
    place + 1 < o.numbers.size ∧ o.numbers[o.numbers.size - 1]? = some k := by
  rw [h.numbers place] at moved
  split at moved
  · next inside => exact ⟨inside, by simpa using moved⟩
  · cases moved

theorem number_gone (h : o.Removal q number place) (consistent : o.Consistent) :
    q.numbers[i]? ≠ some number := by
  have before := consistent.placed.1 h.placed
  intro found
  rw [h.numbers i] at found
  split at found
  case isFalse => cases found
  next inside =>
  split at found
  · have := consistent.place_unique found before
    omega
  · next apart => exact apart (consistent.place_unique found before)

theorem number_kept (h : o.Removal q number place) (consistent : o.Consistent) (stays : k ≠ number)
    (still : q.numbers[place]? ≠ some k) : o.numbers[i]? = some k ↔ q.numbers[i]? = some k := by
  have before := consistent.placed.1 h.placed
  rw [h.numbers place] at still
  rw [h.numbers i]
  constructor
  · intro found
    have inside := (Array.getElem?_eq_some_iff.1 found).1
    have apart : i ≠ place := by
      intro equal
      subst equal
      rw [before] at found
      exact stays (Option.some.inj found).symm
    have notLast : i ≠ o.numbers.size - 1 := by
      intro last
      have first := (Array.getElem?_eq_some_iff.1 before).1
      rw [if_pos (by omega), if_pos rfl, ← last] at still
      exact still found
    rw [if_pos (by omega), if_neg apart]
    exact found
  · intro found
    split at found
    case isFalse => cases found
    next inside =>
    split at found
    · next same =>
      rw [if_pos (same ▸ inside), if_pos rfl] at still
      exact absurd found still
    · exact found

theorem placed_iff (h : o.Removal q number place) (consistent : o.Consistent) :
    (q.places.get? k).join = some i ↔ q.numbers[i]? = some k := by
  rw [h.places k]
  by_cases moved : q.numbers[place]? = some k
  · rw [if_pos moved, Option.some.injEq]
    constructor
    · intro equal
      subst equal
      exact moved
    · intro found
      obtain ⟨inside, last⟩ := h.last_moved moved
      rw [h.numbers i] at found
      split at found
      case isFalse => cases found
      split at found
      · next same => exact same.symm
      · have := consistent.place_unique found last
        omega
  · rw [if_neg moved]
    by_cases gone : k = number
    · subst gone
      rw [if_pos rfl]
      constructor
      · intro absent
        cases absent
      · intro found
        exact absurd found (h.number_gone consistent)
    · rw [if_neg gone, consistent.placed]
      exact h.number_kept consistent gone moved

theorem at?_eq (h : o.Removal q number place) (consistent : o.Consistent) :
    q.at? k = if k = number then none else o.at? k := by
  have before := consistent.placed.1 h.placed
  rw [at?, at?, h.places k]
  by_cases moved : q.numbers[place]? = some k
  · obtain ⟨inside, last⟩ := h.last_moved moved
    have stays : k ≠ number := by
      intro equal
      subst equal
      have := consistent.place_unique last before
      omega
    rw [if_pos moved, if_neg stays, consistent.placed.2 last, Option.bind_some, Option.bind_some,
      h.vars place, ← consistent.sizes, if_pos inside, if_pos rfl]
  · rw [if_neg moved]
    by_cases gone : k = number
    · rw [if_pos gone, if_pos gone]
      rfl
    · rw [if_neg gone, if_neg gone]
      cases found : (o.places.get? k).join with
      | none => rfl
      | some i =>
        have kept := consistent.placed.1 found
        have after := (h.number_kept consistent gone moved).1 kept
        rw [h.numbers i] at after
        split at after
        case isFalse => cases after
        next inside =>
        have apart : i ≠ place := by
          intro equal
          subst equal
          rw [before] at kept
          exact gone (Option.some.inj kept).symm
        rw [Option.bind_some, Option.bind_some, h.vars i, ← consistent.sizes, if_pos inside,
          if_neg apart]

end Removal

/-- A number that is taken out stands for nothing; every other stands for what it stood for. -/
theorem remove_cases {o q : OpenVariables ν} (consistent : o.Consistent) {number : LocalId}
    {r : Option ν} (h : o.remove number = .ok (r, q)) :
    (r = none ∧ o.at? number = none ∧ q = o) ∨
      ∃ x, r = some x ∧ o.at? number = some x ∧ q.Consistent ∧ o.toList.Perm (x :: q.toList) ∧
        ∀ k, q.at? k = if k = number then none else o.at? k := by
  cases placed : (o.places.get? number).join with
  | none =>
    rw [remove_of_unplaced placed] at h
    cases h
    exact Or.inl ⟨rfl, by simp [at?, placed], rfl⟩
  | some place =>
    obtain ⟨removal, renumbered, x, rfl, taken⟩ := removal_of_remove placed h
    have found := (getElem?_of_swapRemove taken).1
    have smaller := (size_of_swapRemove taken).2
    have sizes : q.numbers.size = q.vars.size := by
      have := consistent.sizes
      omega
    exact Or.inr ⟨x, rfl, by simp [at?, placed, found], ⟨sizes, removal.placed_iff consistent⟩,
      perm_of_swapRemove taken, fun k => removal.at?_eq consistent⟩

end OpenVariables
end PseudoBoolean
