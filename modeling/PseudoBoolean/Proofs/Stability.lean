import PseudoBoolean.Proofs.PartialValuation

/-!
Stable points. A partial valuation is stable under a weighted sum when the sum neither is refuted
there nor forces a variable: it is where the propagator of the sum has nothing more to do. Every
inference of a propagator is one that each stable point above has made already; at a valuation,
which leaves nothing free, to be stable is to satisfy the constraint.
-/
namespace PseudoBoolean

theorem Relation.holdsThroughout_mono (r : Relation) {lower upper lower' upper' b : Int}
    (below : lower ≤ lower') (above : upper' ≤ upper) (ordered : lower' ≤ upper')
    (h : r.HoldsThroughout lower upper b) : r.HoldsThroughout lower' upper' b := by
  cases r <;> simp only [HoldsThroughout] at h ⊢ <;> omega

theorem Relation.not_holdsThroughout_negation (r : Relation) {lower upper b : Int}
    (ordered : lower ≤ upper) (h : r.HoldsThroughout lower upper b) :
    ¬ r.negation.HoldsThroughout lower upper b := by
  cases r <;> simp only [HoldsThroughout, negation] at h ⊢ <;> omega

namespace Relation

def Caps (r : Relation) : Prop := r = atMost ∨ r = less ∨ r = equal

def Floors (r : Relation) : Prop := r = atLeast ∨ r = greater ∨ r = equal

end Relation

namespace PartialValuation
variable {ν : Type} [Variable ν]

def settled (e : PartialValuation) (terms : List (Int × ν)) : Int :=
  e.least (terms.filter fun t => !(e.read t.2).isNone)

def SlackAbove (e : PartialValuation) (terms : List (Int × ν)) (rhs : Int) : Prop :=
  ∀ t ∈ e.free terms, e.least terms + t.1.natAbs ≤ rhs

def SlackBelow (e : PartialValuation) (terms : List (Int × ν)) (rhs : Int) : Prop :=
  ∀ t ∈ e.free terms, rhs ≤ e.greatest terms - t.1.natAbs

def Avoids (e : PartialValuation) (terms : List (Int × ν)) (rhs : Int) : Prop :=
  ∀ w x, e.free terms = [(w, x)] →
    e.least terms - min w 0 ≠ rhs ∧ e.least terms - min w 0 + w ≠ rhs

theorem leastTerm_of_free {e : PartialValuation} {x : ν} (free : e.read x = none) (w : Int) :
    e.leastTerm w x = min w 0 := by simp only [leastTerm, free]

theorem greatestTerm_of_free {e : PartialValuation} {x : ν} (free : e.read x = none) (w : Int) :
    e.greatestTerm w x = max w 0 := by simp only [greatestTerm, free]

theorem leastTerm_of_read {e : PartialValuation} {x : ν} {b : Bool} (value : e.read x = some b)
    (w : Int) : e.leastTerm w x = if b then w else 0 := by
  cases b <;> simp [leastTerm, value]

theorem greatestTerm_of_read {e : PartialValuation} {x : ν} {b : Bool}
    (value : e.read x = some b) (w : Int) : e.greatestTerm w x = if b then w else 0 := by
  cases b <;> simp [greatestTerm, value]

theorem least_split {e d : PartialValuation} (h : e.Extends d) (terms : List (Int × ν)) :
    e.least terms = d.settled terms + e.least (d.free terms) := by
  rw [least, total_filter (fun t => (d.read t.2).isNone) terms, Int.add_comm]
  congr 1
  apply total_congr
  intro t member
  obtain ⟨b, value⟩ : ∃ b, d.read t.2 = some b := by
    simpa [Option.isSome_iff_exists] using (List.mem_filter.1 member).2
  rw [leastTerm_of_read value, leastTerm_of_read (read_of_extends h value)]

theorem greatest_split {e d : PartialValuation} (h : e.Extends d) (terms : List (Int × ν)) :
    e.greatest terms = d.settled terms + e.greatest (d.free terms) := by
  rw [greatest, total_filter (fun t => (d.read t.2).isNone) terms, Int.add_comm]
  congr 1
  apply total_congr
  intro t member
  obtain ⟨b, value⟩ : ∃ b, d.read t.2 = some b := by
    simpa [Option.isSome_iff_exists] using (List.mem_filter.1 member).2
  rw [leastTerm_of_read value, greatestTerm_of_read (read_of_extends h value)]

theorem least_add_natAbs_le_greatest {e : PartialValuation} {terms : List (Int × ν)}
    {t : Int × ν} (free : t ∈ e.free terms) :
    e.least terms + t.1.natAbs ≤ e.greatest terms := by
  obtain ⟨member, value⟩ := mem_free_iff.1 free
  have gain := total_gain (leastTerm_le_greatestTerm e) member
  rw [leastTerm_of_free value, greatestTerm_of_free value] at gain
  simp only [least, greatest]
  omega

theorem free_of_extends {e d : PartialValuation} (h : e.Extends d) (terms : List (Int × ν)) :
    e.free terms = e.free (d.free terms) := by
  rw [free, free, free, List.filter_filter]
  apply List.filter_congr
  intro t _
  cases value : d.read t.2 with
  | none => simp
  | some b => simp [read_of_extends h value]

end PartialValuation

namespace WeightedSum
open PartialValuation
variable {ν : Type}

def Blueprint.asSum (b : Blueprint ν) : WeightedSum ν where
  terms := b.weights.zip b.vars
  relation := (b.relation.nonStrict b.rhs).1
  rhs := (b.relation.nonStrict b.rhs).2
  control := b.control

def controlValue (p : WeightedSum ν) (e : PartialValuation) : Option Bool :=
  match p.control with
  | none => some true
  | some c => e.read c

theorem controlValue_of_extends {p : WeightedSum ν} {e d : PartialValuation} (h : e.Extends d)
    {b : Bool} (value : p.controlValue d = some b) : p.controlValue e = some b := by
  unfold controlValue at value ⊢
  cases control : p.control with
  | none => simpa only [control] using value
  | some c =>
    simp only [control] at value
    exact read_of_extends h value

theorem controlValue_congr {p : WeightedSum ν} {e d : PartialValuation}
    (same : ∀ c ∈ p.control, e.read c = d.read c) : p.controlValue e = p.controlValue d := by
  unfold controlValue
  cases control : p.control with
  | none => rfl
  | some c => exact same c control

variable [Variable ν]

def Entailed (p : WeightedSum ν) (e : PartialValuation) : Prop :=
  p.relation.HoldsThroughout (e.least p.terms) (e.greatest p.terms) p.rhs

def Refuted (p : WeightedSum ν) (e : PartialValuation) : Prop :=
  p.relation.negation.HoldsThroughout (e.least p.terms) (e.greatest p.terms) p.rhs

def Pruned (p : WeightedSum ν) (e : PartialValuation) : Prop :=
  match p.relation with
  | .atMost | .less => e.SlackAbove p.terms p.rhs
  | .atLeast | .greater => e.SlackBelow p.terms p.rhs
  | .equal => e.SlackAbove p.terms p.rhs ∧ e.SlackBelow p.terms p.rhs
  | .notEqual => e.Avoids p.terms p.rhs

def StableAt (p : WeightedSum ν) (e : PartialValuation) : Prop :=
  p.controlValue e = some false ∨ ¬ p.Refuted e ∧ (p.controlValue e = some true → p.Pruned e)

theorem Entailed.mono {p : WeightedSum ν} {e d : PartialValuation} (h : e.Extends d)
    (entailed : p.Entailed d) : p.Entailed e :=
  p.relation.holdsThroughout_mono (least_mono h _) (greatest_mono h _) (least_le_greatest e _)
    entailed

theorem Refuted.mono {p : WeightedSum ν} {e d : PartialValuation} (h : e.Extends d)
    (refuted : p.Refuted d) : p.Refuted e :=
  p.relation.negation.holdsThroughout_mono (least_mono h _) (greatest_mono h _)
    (least_le_greatest e _) refuted

theorem Entailed.pruned {p : WeightedSum ν} {e : PartialValuation} (entailed : p.Entailed e) :
    p.Pruned e := by
  have room := fun t (free : t ∈ e.free p.terms) => least_add_natAbs_le_greatest free
  have avoided : p.rhs < e.least p.terms ∨ e.greatest p.terms < p.rhs →
      e.Avoids p.terms p.rhs := by
    intro outside w x only
    have gap := room (w, x) (only ▸ List.mem_cons_self)
    simp only at gap
    omega
  unfold Entailed at entailed
  unfold Pruned
  cases relation : p.relation <;> simp only [relation, Relation.HoldsThroughout] at entailed ⊢
  case equal =>
    constructor
    · intro t free
      have gap := room t free
      omega
    · intro t free
      have gap := room t free
      omega
  case notEqual => exact avoided entailed
  case atMost | less =>
    intro t free
    have gap := room t free
    omega
  case atLeast | greater =>
    intro t free
    have gap := room t free
    omega

theorem least_le_rhs {p : WeightedSum ν} {e : PartialValuation} (caps : p.relation.Caps)
    (possible : ¬ p.Refuted e) : e.least p.terms ≤ p.rhs := by
  rcases caps with relation | relation | relation <;>
    simp only [Refuted, relation, Relation.negation, Relation.HoldsThroughout] at possible <;> omega

theorem rhs_le_greatest {p : WeightedSum ν} {e : PartialValuation} (floors : p.relation.Floors)
    (possible : ¬ p.Refuted e) : p.rhs ≤ e.greatest p.terms := by
  rcases floors with relation | relation | relation <;>
    simp only [Refuted, relation, Relation.negation, Relation.HoldsThroughout] at possible <;> omega

theorem slackAbove_of_pruned {p : WeightedSum ν} {e : PartialValuation} (caps : p.relation.Caps)
    (pruned : p.Pruned e) : e.SlackAbove p.terms p.rhs := by
  rcases caps with relation | relation | relation <;> simp only [Pruned, relation] at pruned
  · exact pruned
  · exact pruned
  · exact pruned.1

theorem slackBelow_of_pruned {p : WeightedSum ν} {e : PartialValuation}
    (floors : p.relation.Floors) (pruned : p.Pruned e) : e.SlackBelow p.terms p.rhs := by
  rcases floors with relation | relation | relation <;> simp only [Pruned, relation] at pruned
  · exact pruned
  · exact pruned
  · exact pruned.2

theorem stableAt_of_entailed {p : WeightedSum ν} {e : PartialValuation}
    (entailed : p.Entailed e) : p.StableAt e :=
  Or.inr ⟨p.relation.not_holdsThroughout_negation (least_le_greatest e _) entailed,
    fun _ => entailed.pruned⟩

theorem stableAt_of_control_false {p : WeightedSum ν} {e : PartialValuation}
    (value : p.controlValue e = some false) : p.StableAt e := Or.inl value

theorem control_false_of_refuted {p : WeightedSum ν} {e : PartialValuation}
    (stable : p.StableAt e) (refuted : p.Refuted e) : p.controlValue e = some false := by
  rcases stable with false | ⟨possible, -⟩
  · exact false
  · exact absurd refuted possible

theorem stableAt_of_control_free {p : WeightedSum ν} {e : PartialValuation}
    (free : p.controlValue e = none) : p.StableAt e ↔ ¬ p.Refuted e := by
  simp [StableAt, free]

theorem stableAt_of_control_true {p : WeightedSum ν} {e : PartialValuation}
    (value : p.controlValue e = some true) : p.StableAt e ↔ ¬ p.Refuted e ∧ p.Pruned e := by
  simp [StableAt, value]

theorem stableAt_uncontrolled {p : WeightedSum ν} {e : PartialValuation}
    (value : p.controlValue e = some true) :
    p.StableAt e ↔ ({ p with control := none } : WeightedSum ν).StableAt e := by
  rw [stableAt_of_control_true value, stableAt_of_control_true rfl]
  rfl

/-- Two sums, over whatever variables, are judged alike. -/
structure Alike {μ : Type} [Variable μ] (e : PartialValuation) (p : WeightedSum ν)
    (q : WeightedSum μ) : Prop where
  control : p.controlValue e = q.controlValue e
  entailed : p.Entailed e ↔ q.Entailed e
  refuted : p.Refuted e ↔ q.Refuted e
  pruned : p.Pruned e ↔ q.Pruned e

section alike
variable {μ : Type} [Variable μ] {e : PartialValuation} {p : WeightedSum ν} {q : WeightedSum μ}

theorem Alike.stableAt (h : Alike e p q) : p.StableAt e ↔ q.StableAt e := by
  rw [StableAt, StableAt, h.control, h.refuted, h.pruned]

theorem Alike.symm (h : Alike e p q) : Alike e q p :=
  ⟨h.control.symm, h.entailed.symm, h.refuted.symm, h.pruned.symm⟩

theorem Alike.trans {ξ : Type} [Variable ξ] {r : WeightedSum ξ} (h : Alike e p q)
    (k : Alike e q r) : Alike e p r :=
  ⟨h.control.trans k.control, h.entailed.trans k.entailed, h.refuted.trans k.refuted,
    h.pruned.trans k.pruned⟩

theorem alike_refl (e : PartialValuation) (p : WeightedSum ν) : Alike e p p :=
  ⟨rfl, Iff.rfl, Iff.rfl, Iff.rfl⟩

theorem alike_of_entailed (control : p.controlValue e = q.controlValue e) (first : p.Entailed e)
    (second : q.Entailed e) : Alike e p q := by
  refine ⟨control, iff_of_true first second, ?_, iff_of_true first.pruned second.pruned⟩
  exact iff_of_false
    (p.relation.not_holdsThroughout_negation (least_le_greatest e _) first)
    (q.relation.not_holdsThroughout_negation (least_le_greatest e _) second)

end alike

theorem judged_congr {p : WeightedSum ν} {e d : PartialValuation}
    (control : ∀ c ∈ p.control, e.read c = d.read c)
    (same : ∀ t ∈ p.terms, e.read t.2 = d.read t.2) :
    p.controlValue e = p.controlValue d ∧ (p.Entailed e ↔ p.Entailed d) ∧
      (p.Refuted e ↔ p.Refuted d) ∧ (p.Pruned e ↔ p.Pruned d) := by
  have free : e.free p.terms = d.free p.terms := by
    apply List.filter_congr
    intro t member
    rw [same t member]
  simp only [Entailed, Refuted, Pruned, SlackAbove, SlackBelow, Avoids, controlValue_congr control,
    least_congr same, greatest_congr same, free, and_self]

structure Calm (p : WeightedSum ν) (e : PartialValuation) : Prop where
  required : p.controlValue e ≠ some false
  undecided : ¬ p.Entailed e
  possible : ¬ p.Refuted e
  pruned : p.controlValue e = some true → p.Pruned e

theorem Calm.stableAt {p : WeightedSum ν} {e : PartialValuation} (h : p.Calm e) : p.StableAt e :=
  Or.inr ⟨h.possible, h.pruned⟩

theorem Calm.congr {p : WeightedSum ν} {e d : PartialValuation} (h : p.Calm d)
    (control : ∀ c ∈ p.control, e.read c = d.read c)
    (same : ∀ t ∈ p.terms, e.read t.2 = d.read t.2) : p.Calm e := by
  obtain ⟨value, entailed, refuted, pruned⟩ := judged_congr control same
  constructor
  · rw [value]
    exact h.required
  · rw [entailed]
    exact h.undecided
  · rw [refuted]
    exact h.possible
  · rw [value, pruned]
    exact h.pruned

end WeightedSum

/-- An outcome that loses no stable point: what was fixed is fixed in all of them, a propagator that
    retires is stable from now on, and one that takes over has the same stable points. -/
def Justified {β : Type} (stable : PartialValuation → Prop)
    (stableAs : β → PartialValuation → Prop) (before after : PartialValuation) :
    Except Inconsistency (Verdict β) → Prop
  | .error _ => ∀ e, e.Extends before → ¬ stable e
  | .ok .atFixpoint => ∀ e, e.Extends before → stable e → e.Extends after
  | .ok .subsumed => (∀ e, e.Extends before → stable e → e.Extends after) ∧
      ∀ e, e.Extends after → stable e
  | .ok (.replaceBy b) => (∀ e, e.Extends before → stable e → e.Extends after) ∧
      ∀ e, e.Extends after → (stable e ↔ stableAs b e)

end PseudoBoolean
