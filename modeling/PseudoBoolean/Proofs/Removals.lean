import Mathlib.Data.List.Sigma
import PseudoBoolean.Proofs.Histories
import PseudoBoolean.Proofs.StandardProgress

/-!
Removals. The first removal of a number hands over the variable that stood there in the beginning,
every later one nothing, however the variables were moved about in between. What is left is what was
not removed.
-/
namespace PseudoBoolean
namespace OpenVariables
variable {ν : Type} {xs : List ν} {gone : List LocalId} {number k : LocalId} {o q : OpenVariables ν}
  {r : Option ν}

def remaining (xs : List ν) (gone : List LocalId) : List ν :=
  (xs.zipIdx.filter fun t => (⟨t.2⟩ : LocalId) ∉ gone).map Prod.fst

theorem remaining_nil (xs : List ν) : remaining xs [] = xs := by
  simp [remaining]

theorem remaining_concat_of_absent (absent : number ∈ gone ∨ xs[number.index]? = none) :
    remaining xs (gone ++ [number]) = remaining xs gone := by
  unfold remaining
  congr 1
  apply List.filter_congr
  rintro ⟨x, i⟩ member
  have found := List.mem_zipIdx_iff_getElem?.1 member
  have same : (⟨i⟩ : LocalId) = number → number ∈ gone := by
    rintro rfl
    rcases absent with old | none
    · exact old
    · rw [none] at found
      cases found
  grind

theorem remaining_concat_of_present {x : ν} (present : number ∉ gone)
    (found : xs[number.index]? = some x) :
    (remaining xs gone).Perm (x :: remaining xs (gone ++ [number])) := by
  classical
  have nodup : (xs.zipIdx.filter fun t => (⟨t.2⟩ : LocalId) ∉ gone).Nodup :=
    (List.Nodup.of_map _ (List.nodup_zipIdx_map_snd xs)).filter _
  have member : (x, number.index) ∈ xs.zipIdx.filter fun t => (⟨t.2⟩ : LocalId) ∉ gone :=
    List.mem_filter.2 ⟨List.mem_zipIdx_iff_getElem?.2 found, decide_eq_true present⟩
  have erased : (xs.zipIdx.filter fun t => (⟨t.2⟩ : LocalId) ∉ gone).erase (x, number.index) =
      xs.zipIdx.filter fun t => (⟨t.2⟩ : LocalId) ∉ gone ++ [number] := by
    rw [nodup.erase_eq_filter, List.filter_filter]
    apply List.filter_congr
    rintro ⟨y, i⟩ other
    have there := List.mem_zipIdx_iff_getElem?.1 other
    have same : (y, i) = (x, number.index) ↔ (⟨i⟩ : LocalId) = number := by
      constructor
      · intro equal
        cases equal
        rfl
      · rintro rfl
        rw [there] at found
        cases found
        rfl
    grind
  have split := (List.perm_cons_erase member).map Prod.fst
  rw [erased] at split
  exact split

theorem held_concat (xs : List ν) (gone : List LocalId) (number k : LocalId) :
    (if k ∈ gone ++ [number] then none else xs[k.index]?) =
      if k = number then none else if k ∈ gone then none else xs[k.index]? := by
  by_cases same : k = number
  · simp [same]
  · simp [same]

structure Left (xs : List ν) (gone : List LocalId) (o : OpenVariables ν) : Prop where
  consistent : o.Consistent
  held : ∀ k, o.at? k = if k ∈ gone then none else xs[k.index]?
  perm : o.toList.Perm (remaining xs gone)

theorem left_ofList (xs : List ν) : Left xs [] (ofList xs) where
  consistent := consistent_ofList xs
  held := by
    intro k
    rw [at?_ofList, if_neg (List.not_mem_nil)]
  perm := by rw [toList_ofList, remaining_nil]

namespace Left

theorem remove (left : Left xs gone o) (number : LocalId) :
    ∃ q, o.remove number = .ok (if number ∈ gone then none else xs[number.index]?, q) ∧
      Left xs (gone ++ [number]) q := by
  obtain ⟨⟨r, q⟩, done⟩ := returns_remove left.consistent number
  have here := left.held number
  rcases remove_cases left.consistent done with ⟨rfl, unheld, rfl⟩ |
    ⟨x, rfl, found, consistent, perm, after⟩
  · rw [unheld] at here
    refine ⟨q, here ▸ done, left.consistent, ?_, ?_⟩
    · intro k
      rw [held_concat, ← left.held]
      split
      · next same => rw [same, unheld]
      · rfl
    · have absent : number ∈ gone ∨ xs[number.index]? = none := by
        by_cases old : number ∈ gone
        · exact Or.inl old
        · rw [if_neg old] at here
          exact Or.inr here.symm
      rw [remaining_concat_of_absent absent]
      exact left.perm
  · rw [found] at here
    have present : number ∉ gone := by
      intro old
      rw [if_pos old] at here
      cases here
    refine ⟨q, here ▸ done, consistent, ?_, ?_⟩
    · intro k
      rw [held_concat, ← left.held, after]
    · rw [if_neg present] at here
      have split := remaining_concat_of_present present here.symm
      exact (List.perm_cons x).1 ((perm.symm.trans left.perm).trans split)

theorem serveAll (left : Left xs gone o) (numbers : List LocalId) :
    ∃ answers q, serveAll OpenVariables.remove o numbers = .ok (answers, q) ∧
      Left xs (gone ++ numbers) q ∧ ∀ i k, numbers[i]? = some k →
        answers[i]? = some (if k ∈ gone ++ numbers.take i then none else xs[k.index]?) := by
  induction numbers generalizing gone o with
  | nil => exact ⟨[], o, rfl, by rwa [List.append_nil], by simp⟩
  | cons number rest ih =>
    obtain ⟨between, first, kept⟩ := left.remove number
    obtain ⟨answers, q, others, last, answered⟩ := ih kept
    rw [List.append_assoc, List.singleton_append] at last
    refine ⟨_, q, serveAll_cons first others, last, ?_⟩
    intro i k entry
    cases i with
    | zero =>
      cases entry
      simp
    | succ i =>
      have later := answered i k entry
      rw [List.append_assoc, List.singleton_append] at later
      exact later

end Left

theorem serveAll_cleared (o : OpenVariables ν) (numbers : List LocalId) :
    serveAll remove o.cleared numbers = .ok (numbers.map fun _ => none, o.cleared) := by
  have absent : ∀ k, (o.cleared.places.get? k).join = none := by
    intro k
    simp only [cleared, Table.get?, Table.map, Array.getElem?_map]
    cases o.places.elements[Key.index k]? <;> rfl
  induction numbers with
  | nil => rfl
  | cons number rest ih => exact serveAll_cons (remove_of_unplaced (absent number)) ih

/-- A collection after the removals of `gone`, told from these numbers alone. `toList` is what a
    propagator hands over, and `cleared` what it keeps then. -/
structure RemovalMap (xs : List ν) (gone : List LocalId) (o : OpenVariables ν) : Prop where
  left : o.toList.Perm (remaining xs gone)
  counted : o.size = (remaining xs gone).length
  held : ∀ k, o.at? k = if k ∈ gone then none else xs[k.index]?
  inRange : ∀ k place, (o.places.get? k).join = some place → place < o.size
  handedOver : o.cleared.toList = [] ∧ ∀ numbers,
    serveAll remove o.cleared numbers = .ok (numbers.map fun _ => none, o.cleared)

theorem Left.removalMap (left : Left xs gone o) : o.RemovalMap xs gone where
  left := left.perm
  counted := left.perm.length_eq
  held := left.held
  inRange := by
    intro k place placed
    have inside := (left.consistent.place_lt placed).1
    rw [left.consistent.sizes] at inside
    exact inside
  handedOver := ⟨toList_cleared o, serveAll_cleared o⟩

/-- Any numbers can be removed, and each hands over its variable the first time. -/
theorem removalMap_of_serveAll (xs : List ν) (numbers : List LocalId) :
    ∃ answers o, serveAll remove (ofList xs) numbers = .ok (answers, o) ∧ o.RemovalMap xs numbers ∧
      ∀ i k, numbers[i]? = some k →
        answers[i]? = some (if k ∈ numbers.take i then none else xs[k.index]?) := by
  obtain ⟨answers, o, served, left, answered⟩ := (left_ofList xs).serveAll numbers
  exact ⟨answers, o, served, left.removalMap, answered⟩

example :
    (serveAll remove (ofList [10, 11, 10, 13]) [⟨0⟩, ⟨3⟩, ⟨0⟩, ⟨4⟩, ⟨2⟩]).map
      (fun served => (served.1, served.2.toList)) =
    .ok ([some 10, some 13, none, none, some 10], [11]) := by
  decide +kernel

end OpenVariables
end PseudoBoolean
