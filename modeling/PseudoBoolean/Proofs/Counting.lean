import PseudoBoolean.Proofs.OpenVariables
import PseudoBoolean.Proofs.Propagation
import PseudoBoolean.Proofs.Stability

/-!
The counting propagators as weighted sums. A count is a sum with all weights 1; it has the same
stable points when variables with a value are dropped and the true ones taken off the threshold,
whether that is done when the propagator is built or event by event.
-/
namespace PseudoBoolean
namespace PartialValuation
variable {ν : Type} [Variable ν]

def numPossible (e : PartialValuation) (xs : List ν) : Nat :=
  xs.countP fun x => e.read x ≠ some false

def numTrue (e : PartialValuation) (xs : List ν) : Nat :=
  xs.countP fun x => e.read x = some true

theorem numPossible_cons (e : PartialValuation) (x : ν) (xs : List ν) :
    e.numPossible (x :: xs) = e.numPossible xs + if e.read x = some false then 0 else 1 := by
  rw [numPossible, List.countP_cons, numPossible]
  by_cases value : e.read x = some false <;> simp [value]

theorem numTrue_cons (e : PartialValuation) (x : ν) (xs : List ν) :
    e.numTrue (x :: xs) = e.numTrue xs + if e.read x = some true then 1 else 0 := by
  rw [numTrue, List.countP_cons, numTrue]
  by_cases value : e.read x = some true <;> simp [value]

theorem greatest_ones (e : PartialValuation) (xs : List ν) :
    e.greatest (xs.map ((1 : Int), ·)) = e.numPossible xs := by
  induction xs with
  | nil => rfl
  | cons x rest ih =>
    unfold greatest at ih ⊢
    rw [List.map_cons, total, ih, numPossible_cons, greatestTerm]
    cases value : e.read x with
    | none =>
      simp only [reduceCtorEq, if_false]
      omega
    | some b => cases b <;> simp [Int.add_comm]

theorem least_ones (e : PartialValuation) (xs : List ν) :
    e.least (xs.map ((1 : Int), ·)) = e.numTrue xs := by
  induction xs with
  | nil => rfl
  | cons x rest ih =>
    unfold least at ih ⊢
    rw [List.map_cons, total, ih, numTrue_cons, leastTerm]
    cases value : e.read x with
    | none =>
      simp only [reduceCtorEq, if_false]
      omega
    | some b => cases b <;> simp [Int.add_comm]

theorem exists_free_iff (e : PartialValuation) (xs : List ν) :
    e.numTrue xs ≤ e.numPossible xs ∧
      ((∃ x ∈ xs, e.read x = none) ↔ e.numTrue xs < e.numPossible xs) := by
  induction xs with
  | nil => simp [numTrue, numPossible]
  | cons x rest ih =>
    simp only [numTrue_cons, numPossible_cons, List.mem_cons, exists_eq_or_imp, ih.2]
    cases value : e.read x with
    | none => simp; omega
    | some b => cases b <;> simp <;> omega

theorem numPossible_le (e : PartialValuation) (xs : List ν) : e.numPossible xs ≤ xs.length :=
  List.countP_le_length

theorem read_ne_false_of_numPossible {e : PartialValuation} {xs : List ν}
    (full : e.numPossible xs = xs.length) {x : ν} (member : x ∈ xs) : e.read x ≠ some false := by
  have all := List.countP_eq_length.1 full x member
  simpa using all

theorem numPossible_of_free {e : PartialValuation} {xs : List ν}
    (free : ∀ x ∈ xs, e.read x = none) : e.numPossible xs = xs.length := by
  apply List.countP_eq_length.2
  intro x member
  simp [free x member]

end PartialValuation

namespace WeightedSum
open PartialValuation
variable {ν : Type}

def count (control : Option Literal) (vars : List ν) (threshold : Int) : WeightedSum ν :=
  ⟨vars.map ((1 : Int), ·), .atLeast, threshold, control⟩

variable [Variable ν] {control : Option Literal} {e : PartialValuation}

theorem count_refuted_iff {xs : List ν} {t : Int} :
    (count control xs t).Refuted e ↔ (e.numPossible xs : Int) < t := by
  simp only [Refuted, count, Relation.negation, Relation.HoldsThroughout, greatest_ones]

theorem count_pruned_iff {xs : List ν} {t : Int} :
    (count control xs t).Pruned e ↔ ∀ x ∈ xs, e.read x = none → t < e.numPossible xs := by
  simp only [Pruned, count, SlackBelow, mem_free_iff, List.mem_map, greatest_ones]
  constructor
  · intro slack x member free
    have room := slack (1, x) ⟨⟨x, member, rfl⟩, free⟩
    simp only [Int.natAbs_one] at room
    omega
  · rintro room ⟨w, x⟩ ⟨⟨y, member, same⟩, free⟩
    cases same
    have strict := room x member free
    simp only [Int.natAbs_one]
    omega

theorem count_entailed_iff {xs : List ν} {t : Int} :
    (count control xs t).Entailed e ↔ t ≤ e.numTrue xs := by
  simp only [Entailed, count, Relation.HoldsThroughout, least_ones]

theorem count_alike {μ : Type} [Variable μ] {xs : List ν} {ys : List μ} {t u : Int}
    (possible : (e.numPossible xs : Int) - t = e.numPossible ys - u)
    (reached : (e.numTrue xs : Int) - t = e.numTrue ys - u) :
    Alike e (count control xs t) (count control ys u) := by
  have free : (∃ x ∈ xs, e.read x = none) ↔ ∃ y ∈ ys, e.read y = none := by
    rw [(exists_free_iff e xs).2, (exists_free_iff e ys).2]
    omega
  refine ⟨rfl, ?_, ?_, ?_⟩
  · rw [count_entailed_iff, count_entailed_iff]
    omega
  · rw [count_refuted_iff, count_refuted_iff]
    omega
  · rw [count_pruned_iff, count_pruned_iff]
    constructor
    · intro room y member isFree
      obtain ⟨x, inside, left⟩ := free.2 ⟨y, member, isFree⟩
      have strict := room x inside left
      omega
    · intro room x member isFree
      obtain ⟨y, inside, left⟩ := free.1 ⟨x, member, isFree⟩
      have strict := room y inside left
      omega

theorem count_entailed_of_reached {xs : List ν} {t : Int} (reached : t ≤ 0) :
    (count control xs t).Entailed e := by
  rw [count_entailed_iff]
  omega

theorem count_stableAt_of_reached {xs : List ν} {t : Int} (reached : t ≤ 0) :
    (count control xs t).StableAt e := stableAt_of_entailed (count_entailed_of_reached reached)

theorem count_refuted_of_unreachable {xs : List ν} {t : Int} (unreachable : (xs.length : Int) < t) :
    (count control xs t).Refuted e := by
  have few := e.numPossible_le xs
  rw [count_refuted_iff]
  omega

theorem count_stableAt_of_tight {xs : List ν} {t : Int} (tight : t = xs.length) :
    (count none xs t).StableAt e ↔ ∀ x ∈ xs, e.read x = some true := by
  have few := e.numPossible_le xs
  rw [stableAt_of_control_true rfl, count_refuted_iff, count_pruned_iff]
  constructor
  · intro stable x member
    have full : e.numPossible xs = xs.length := by omega
    have possible := read_ne_false_of_numPossible full member
    cases value : e.read x with
    | none =>
      have slack := stable.2 x member value
      omega
    | some b =>
      cases b with
      | true => rfl
      | false => exact absurd value possible
  · intro values
    have all : e.numPossible xs = xs.length := by
      apply List.countP_eq_length.2
      intro x member
      simp [values x member]
    refine ⟨by omega, ?_⟩
    intro x member free
    rw [values x member] at free
    cases free

theorem count_alike_saturating {xs : List ν} (t : Int) (n : Nat) :
    Alike e (count control xs (saturatingSub t n)) (count control xs (t - n)) := by
  unfold saturatingSub
  by_cases low : t - n ≤ wordMin
  · have reached : wordMin ≤ 0 := by decide
    rw [Int.max_eq_left low]
    exact alike_of_entailed rfl (count_entailed_of_reached reached)
      (count_entailed_of_reached (by omega))
  · rw [Int.max_eq_right (by omega)]
    exact alike_refl e _

theorem count_alike_perm {xs ys : List ν} (same : xs.Perm ys) (t : Int) :
    Alike e (count control xs t) (count control ys t) := by
  apply count_alike
  · rw [numPossible, numPossible, same.countP_eq]
  · rw [numTrue, numTrue, same.countP_eq]

theorem count_alike_literal {xs : List ν} {t : Int} :
    Alike e (count control (xs.map Variable.literal) t) (count control xs t) := by
  have same : ∀ x : ν, e.read (Variable.literal x) = e.read x := fun _ => rfl
  apply count_alike
  · simp only [numPossible, List.countP_map, Function.comp_def, same]
  · simp only [numTrue, List.countP_map, Function.comp_def, same]

theorem count_alike_cons {x : ν} {xs : List ν} {t : Int} {b : Bool} (value : e.read x = some b) :
    Alike e (count control (x :: xs) t)
      (count control xs (if b then saturatingSub t 1 else t)) := by
  have dropped : Alike e (count control (x :: xs) t)
      (count control xs (t - if b then 1 else 0)) := by
    apply count_alike
    · rw [numPossible_cons, value]
      cases b <;> simp
      omega
    · rw [numTrue_cons, value]
      cases b <;> simp
      omega
  cases b with
  | true => exact dropped.trans (count_alike_saturating t 1).symm
  | false => simpa using dropped

theorem countP_split {d : PartialValuation} (above : e.Extends d) {p : Option Bool → Bool}
    (ofTrue : p (some true) = true) (ofFalse : p (some false) = false) (xs : List ν) :
    xs.countP (fun x => p (e.read x)) =
      (xs.filter fun x => (d.read x).isNone).countP (fun x => p (e.read x)) + d.numTrue xs := by
  induction xs with
  | nil => rfl
  | cons x others ih =>
    rw [List.countP_cons, ih, List.filter_cons, numTrue_cons]
    cases value : d.read x with
    | none => simp [List.countP_cons]; omega
    | some b =>
      rw [read_of_extends above value]
      cases b
      · simp [ofFalse]
      · simp [ofTrue]
        omega

theorem count_alike_separate {s : Domains} {xs rest : List ν} {n : Nat} {t : Int}
    (separated : s.separate xs = .ok (rest, n)) (above : e.Extends s.known) :
    Alike e (count control xs t) (count control rest (saturatingSub t n)) := by
  obtain ⟨rfl, counted⟩ := Domains.separate_eq separated
  refine Alike.trans ?_ (count_alike_saturating t n).symm
  have fixed : n = s.known.numTrue xs := counted
  apply count_alike
  · have split := countP_split above (p := fun value => decide (value ≠ some false))
      rfl rfl xs
    simp only [numPossible]
    omega
  · have split := countP_split above (p := fun value => decide (value = some true)) rfl rfl xs
    simp only [numTrue] at split fixed ⊢
    omega

end WeightedSum
end PseudoBoolean
