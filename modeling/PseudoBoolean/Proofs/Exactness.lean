import PseudoBoolean.Proofs.Completion
import PseudoBoolean.Proofs.StandardProgress

/-!
One run of the weighted sum is exact for inequalities. When no domain occurs twice, the bounds of a
sum are values that it takes in completions of the store; so what the run finds, and the values that
it fixes, are those that can be read off the solutions of the inequality.
-/
namespace PseudoBoolean

namespace Relation

def IsInequality (r : Relation) : Prop := r ≠ equal ∧ r ≠ notEqual

instance (r : Relation) : Decidable r.IsInequality :=
  inferInstanceAs (Decidable (r ≠ equal ∧ r ≠ notEqual))

theorem IsInequality.negation {r : Relation} (h : r.IsInequality) : r.negation.IsInequality := by
  cases r with
  | equal => exact absurd rfl h.1
  | notEqual => exact absurd rfl h.2
  | atMost | less | atLeast | greater => decide

theorem IsInequality.nonStrict {r : Relation} (h : r.IsInequality) (b : Int) :
    (r.nonStrict b).1 = atMost ∨ (r.nonStrict b).1 = atLeast := by
  cases r with
  | equal => exact absurd rfl h.1
  | notEqual => exact absurd rfl h.2
  | atMost | less => exact .inl rfl
  | atLeast | greater => exact .inr rfl

end Relation

namespace PartialValuation
variable {ν : Type} [Variable ν] {terms : List (Int × ν)}

theorem exists_choice (distinct : Distinct terms) (e : PartialValuation) (pick : Int → Bool) :
    ∃ v : Valuation, (ofTotal v).Extends e ∧
      ∀ t ∈ terms, v.eval t.2 = (e.read t.2).getD (pick t.1) := by
  induction terms generalizing e with
  | nil => exact ⟨e.filled, extends_filled e, by simp⟩
  | cons t rest ih =>
    obtain ⟨w, x⟩ := t
    have ⟨new, later⟩ := List.nodup_cons.1 distinct
    cases value : e.read x with
    | some b =>
      obtain ⟨v, above, chosen⟩ := ih later e
      refine ⟨v, above, List.forall_mem_cons.2 ⟨?_, chosen⟩⟩
      rw [value]
      exact Option.some.inj (read_of_extends above value)
    | none =>
      obtain ⟨v, above, chosen⟩ := ih later (e.learnAs x (pick w))
      have grown := extends_trans above (extends_learn (read_eq_none_iff.1 value))
      refine ⟨v, grown, List.forall_mem_cons.2 ⟨?_, ?_⟩⟩
      · rw [value]
        exact Option.some.inj (read_of_extends above (read_learnAs e x (pick w)))
      · intro t member
        rw [chosen t member, learnAs, read_learn_of_ne]
        intro same
        have inside := List.mem_map_of_mem (f := fun t => (Variable.literal t.2).domain) member
        rw [same] at inside
        exact new inside

theorem exists_sum (distinct : Distinct terms) (e : PartialValuation) {f : Int → ν → Int}
    (pick : Int → Bool) (picked : ∀ w x, (if (e.read x).getD (pick w) then w else 0) = f w x) :
    ∃ v : Valuation, (ofTotal v).Extends e ∧ v.sum terms = total f terms := by
  obtain ⟨v, above, chosen⟩ := exists_choice distinct e pick
  refine ⟨v, above, (sum_eq_total v terms).trans ?_⟩
  apply total_congr
  intro t member
  rw [Valuation.term, chosen t member]
  exact picked t.1 t.2

theorem exists_least (distinct : Distinct terms) (e : PartialValuation) :
    ∃ v : Valuation, (ofTotal v).Extends e ∧ v.sum terms = e.least terms := by
  -- every free variable takes the cheaper of its values
  apply exists_sum distinct e fun w => decide (w < 0)
  intro w x
  cases value : e.read x with
  | some b => exact (leastTerm_of_read value w).symm
  | none =>
    simp only [leastTerm_of_free value, Option.getD_none, decide_eq_true_eq]
    split <;> omega

theorem exists_greatest (distinct : Distinct terms) (e : PartialValuation) :
    ∃ v : Valuation, (ofTotal v).Extends e ∧ v.sum terms = e.greatest terms := by
  apply exists_sum distinct e fun w => decide (0 < w)
  intro w x
  cases value : e.read x with
  | some b => exact (greatestTerm_of_read value w).symm
  | none =>
    simp only [greatestTerm_of_free value, Option.getD_none, decide_eq_true_eq]
    split <;> omega

/-- An inequality holds of the whole range of a sum if it holds of every value the sum takes. -/
theorem holdsThroughout_iff_forall {r : Relation} (inequality : r.IsInequality)
    (distinct : Distinct terms) (e : PartialValuation) (rhs : Int) :
    r.HoldsThroughout (e.least terms) (e.greatest terms) rhs ↔
      ∀ v : Valuation, (ofTotal v).Extends e → r.Holds (v.sum terms) rhs := by
  constructor
  · intro throughout v above
    apply (r.holdsThroughout_iff (least_le_greatest e terms) rhs).1 throughout
    · rw [← least_ofTotal]
      exact least_mono above terms
    · rw [← greatest_ofTotal]
      exact greatest_mono above terms
  · intro all
    obtain ⟨v, aboveLeast, least⟩ := exists_least distinct e
    obtain ⟨u, aboveGreatest, greatest⟩ := exists_greatest distinct e
    have atLeast := all v aboveLeast
    have atGreatest := all u aboveGreatest
    rw [least] at atLeast
    rw [greatest] at atGreatest
    cases r with
    | equal => exact absurd rfl inequality.1
    | notEqual => exact absurd rfl inequality.2
    | atMost | less => exact atGreatest
    | atLeast | greater => exact atLeast

end PartialValuation

namespace WeightedSum
open PartialValuation Attempt
variable {ν : Type} [Variable ν] {p : WeightedSum ν} {e : PartialValuation} {s t : Domains}

theorem entailed_iff_forall (inequality : p.relation.IsInequality) (distinct : Distinct p.terms) :
    p.Entailed e ↔
      ∀ v : Valuation, (ofTotal v).Extends e → p.relation.Holds (v.sum p.terms) p.rhs :=
  holdsThroughout_iff_forall inequality distinct e p.rhs

theorem not_refuted_iff_exists (inequality : p.relation.IsInequality)
    (distinct : Distinct p.terms) :
    ¬ p.Refuted e ↔
      ∃ v : Valuation, (ofTotal v).Extends e ∧ p.relation.Holds (v.sum p.terms) p.rhs := by
  simp only [Refuted, holdsThroughout_iff_forall inequality.negation distinct,
    Relation.holds_negation, not_forall, not_not, exists_prop]

theorem known_of_require {x : ν} {b : Bool}
    {r : Except Inconsistency Unit} (required : exec (require x b) s = .ok (r, t))
    (free : s.known.read x = none) : r = .ok () ∧ t.known = s.known.learnAs x b := by
  have new := read_eq_none_iff.1 free
  obtain ⟨rfl, below⟩ := require_met required (extends_learn new) (read_learnAs s.known x b)
  obtain ⟨above, value⟩ := (extends_after_require required t.known).1 (extends_refl _)
  have learned := (extends_learn_iff new).2 ⟨above, read_eq_some_iff.1 value⟩
  exact ⟨rfl, extends_antisymm learned below⟩

theorem prune_met_of_holds {v : Valuation} {r : Except Inconsistency Unit}
    (above : (ofTotal v).Extends s.known) (holds : p.relation.Holds (v.sum p.terms) p.rhs)
    (pruned : exec (p.prune ⟨s.known.least p.terms, s.known.greatest p.terms,
      s.known.free p.terms⟩) s = .ok (r, t)) : r = .ok () ∧ (ofTotal v).Extends t.known := by
  refine prune_met above ?_ (pruned_of_known fun _ _ => by simp) pruned
  rw [refuted_iff_of_known fun _ _ => read_ofTotal v _]
  exact not_not.2 holds

theorem not_refuted_learn_of_left (relation : p.relation = .atMost ∨ p.relation = .atLeast)
    (distinct : Distinct p.terms) (possible : ¬ p.Refuted s.known)
    (pruned : exec (p.prune ⟨s.known.least p.terms, s.known.greatest p.terms,
      s.known.free p.terms⟩) s = .ok (.ok (), t))
    {d : DomainId} (left : t.known d = none) (b : Bool) : ¬ p.Refuted (s.known.learn d b) := by
  have free : s.known d = none := by
    cases value : s.known d with
    | none => rfl
    | some b =>
      rw [extends_of_exec pruned d b value] at left
      cases left
  have comparing : p.relation ≠ .notEqual ∧ ¬ p.relation.IsStrict := by
    rcases relation with relation | relation <;> rw [relation] <;> simp [Relation.IsStrict]
  apply not_refuted_learn_of_room comparing.1 comparing.2 distinct possible free
  rintro u member rfl
  exact prune_left pruned u member (read_eq_none_iff.2 left)

/-- The valuation completes the store and makes the relation hold, whatever the control. -/
def Blueprint.Solves (b : Blueprint ν) (s : Domains) (v : Valuation) : Prop :=
  v.Completes s ∧ b.relation.Holds (v.sum (b.weights.zip b.vars)) b.rhs

def Blueprint.Forces (b : Blueprint ν) (s : Domains) (d : DomainId) (value : Bool) : Prop :=
  (∃ v, b.Solves s v ∧ v d = value) ∧ ¬ ∃ v, b.Solves s v ∧ v d = !value

/-- A run where the relation is required: what it reports and which values it leaves are read off
    the solutions. -/
structure Blueprint.RunsExactly {β : Type} (b : Blueprint ν) (s : Domains)
    (r : Except Inconsistency (Verdict β)) (t : Domains) : Prop where
  fails_iff : (∃ i, r = .error i) ↔ ¬ ∃ v, b.Solves s v
  retires_iff : r = .ok .subsumed ↔ ∀ v : Valuation, v.Completes s → b.Solves s v
  otherwise : (∃ v, b.Solves s v) → (∃ v : Valuation, v.Completes s ∧ ¬ b.Solves s v) →
    r = .ok .atFixpoint ∧ (∀ d value, s.known d = some value → t.known d = some value) ∧
      ∀ d value, s.known d = none → (t.known d = some value ↔ b.Forces s d value)

/-- A run where the control `c` has no value: it decides the control if anything, and so leaves
    every variable of a sum that the control is not in. -/
structure Blueprint.WaitsExactly (b : Blueprint ν) (c : Literal) (s t : Domains) : Prop where
  others : ∀ d, d ≠ c.domain → t.known d = s.known d
  rejects_iff : t.read c = .ok (some false) ↔ ¬ ∃ v, b.Solves s v

section blueprint
variable {b : Blueprint ν} {v : Valuation}

theorem distinct_asSum (sizes : b.weights.length = b.vars.length)
    (distinct : (b.vars.map fun x => (Variable.literal x).domain).Nodup) :
    Distinct b.asSum.terms := by
  change ((b.weights.zip b.vars).map ((fun x => (Variable.literal x).domain) ∘ Prod.snd)).Nodup
  rw [← List.map_map, List.map_snd_zip (Nat.le_of_eq sizes.symm)]
  exact distinct

theorem solves_iff : b.Solves s v ↔ (ofTotal v).Extends s.known ∧
    b.asSum.relation.Holds (v.sum b.asSum.terms) b.asSum.rhs :=
  and_congr Domains.completes_iff (Relation.holds_nonStrict _ _ _).symm

omit [Variable ν] in
theorem asSum_relation (inequality : b.relation.IsInequality) :
    b.asSum.relation = .atMost ∨ b.asSum.relation = .atLeast := inequality.nonStrict b.rhs

omit [Variable ν] in
theorem asSum_isInequality (inequality : b.relation.IsInequality) :
    b.asSum.relation.IsInequality := by
  rcases asSum_relation inequality with relation | relation <;> rw [relation] <;> decide

section solutions
variable (inequality : b.relation.IsInequality) (distinct : Distinct b.asSum.terms)
include inequality distinct

theorem solvable_iff : (∃ v, b.Solves s v) ↔ ¬ b.asSum.Refuted s.known := by
  simp only [solves_iff, not_refuted_iff_exists (asSum_isInequality inequality) distinct]

theorem entailed_iff_solves :
    b.asSum.Entailed s.known ↔ ∀ v : Valuation, v.Completes s → b.Solves s v := by
  rw [entailed_iff_forall (asSum_isInequality inequality) distinct]
  constructor
  · intro all v completes
    have above := Domains.completes_iff.1 completes
    exact solves_iff.2 ⟨above, all v above⟩
  · intro all v above
    exact (solves_iff.1 (all v (Domains.completes_iff.2 above))).2

/-- The values that a run fixes are those of all solutions. -/
theorem forces_iff_of_pruned (possible : ¬ b.asSum.Refuted s.known)
    (pruned : exec (b.asSum.prune ⟨s.known.least b.asSum.terms, s.known.greatest b.asSum.terms,
      s.known.free b.asSum.terms⟩) s = .ok (.ok (), t))
    {d : DomainId} (free : s.known d = none) (value : Bool) :
    t.known d = some value ↔ b.Forces s d value := by
  have kept : ∀ v, b.Solves s v → (ofTotal v).Extends t.known := by
    intro v solves
    obtain ⟨above, holds⟩ := solves_iff.1 solves
    exact (prune_met_of_holds above holds pruned).2
  constructor
  · intro fixed
    have same : ∀ v, b.Solves s v → v d = value :=
      fun v solves => Option.some.inj (kept v solves d value fixed)
    obtain ⟨v, solves⟩ := (solvable_iff inequality distinct).2 possible
    refine ⟨⟨v, solves, same v solves⟩, ?_⟩
    rintro ⟨u, solves, other⟩
    rw [same u solves] at other
    exact absurd other (by simp)
  · intro ⟨⟨v, solves, taken⟩, only⟩
    cases left : t.known d with
    | some c => rw [← taken, ← Option.some.inj (kept v solves d c left)]
    | none =>
      -- had the run left the domain open, the other value would leave a solution
      exfalso
      have possible := not_refuted_learn_of_left (asSum_relation inequality) distinct possible
        pruned left (!value)
      obtain ⟨u, above, holds⟩ :=
        (not_refuted_iff_exists (asSum_isInequality inequality) distinct).1 possible
      obtain ⟨above, other⟩ := (extends_learn_iff free).1 above
      exact only ⟨u, solves_iff.2 ⟨above, holds⟩, Option.some.inj other⟩

theorem runsExactly_of_entailed {β : Type} (entailed : b.asSum.Entailed s.known) (t : Domains) :
    b.RunsExactly (β := β) s (.ok .subsumed) t := by
  have all := (entailed_iff_solves inequality distinct).1 entailed
  constructor
  · exact iff_of_false (by simp) (not_not.2 ⟨_, all _ (Domains.completes_filled s)⟩)
  · exact iff_of_true rfl all
  · rintro - ⟨v, completes, violated⟩
    exact absurd (all v completes) violated

theorem runsExactly_of_refuted {β : Type} (refuted : b.asSum.Refuted s.known) (i : Inconsistency)
    (t : Domains) : b.RunsExactly (β := β) s (.error i) t := by
  have unsolvable : ¬ ∃ v, b.Solves s v :=
    fun solvable => (solvable_iff inequality distinct).1 solvable refuted
  constructor
  · exact iff_of_true ⟨i, rfl⟩ unsolvable
  · exact iff_of_false (by simp) fun all => unsolvable ⟨_, all _ (Domains.completes_filled s)⟩
  · exact fun solvable => absurd solvable unsolvable

theorem runsExactly_of_pruned {β : Type} {r : Except Inconsistency Unit}
    (undecided : ¬ b.asSum.Entailed s.known) (possible : ¬ b.asSum.Refuted s.known)
    (pruned : exec (b.asSum.prune ⟨s.known.least b.asSum.terms, s.known.greatest b.asSum.terms,
      s.known.free b.asSum.terms⟩) s = .ok (r, t)) :
    b.RunsExactly (β := β) s (r.map fun _ => .atFixpoint) t := by
  obtain ⟨v, solves⟩ := (solvable_iff inequality distinct).2 possible
  obtain ⟨above, holds⟩ := solves_iff.1 solves
  obtain ⟨rfl, -⟩ := prune_met_of_holds above holds pruned
  constructor
  · refine iff_of_false ?_ (not_not.2 ⟨v, solves⟩)
    rintro ⟨i, same⟩
    cases same
  · refine iff_of_false (by simp [Except.map]) fun all => undecided ?_
    exact (entailed_iff_solves inequality distinct).2 all
  · intro _ _
    refine ⟨rfl, fun d value => extends_of_exec pruned d value, ?_⟩
    exact fun d value free => forces_iff_of_pruned inequality distinct possible pruned free value

theorem runsExactly_of_required {β : Type} {self : PropagatorId}
    {r : Except Inconsistency (Verdict β)} (value : b.asSum.controlValue s.known = some true)
    (ran : exec (b.asSum.propagate self) s = .ok (r, t)) : b.RunsExactly s r t := by
  cases runsTo_of_exec ran with
  | vacuous rejected => rw [value] at rejected; cases rejected
  | waiting unknown => rw [value] at unknown; cases unknown
  | entailed entailed => exact runsExactly_of_entailed inequality distinct entailed _
  | conflict _ refuted => exact runsExactly_of_refuted inequality distinct refuted _ _
  | pruned _ undecided possible pruned =>
    exact runsExactly_of_pruned inequality distinct undecided possible pruned
  | @rejected c q _ control refuted required =>
    simp only [controlValue, control] at value
    cases q with
    | error i => exact runsExactly_of_refuted inequality distinct refuted i _
    | ok _ =>
      -- the control cannot have both values
      obtain ⟨above, rejected⟩ := (extends_after_require required t.known).1 (extends_refl _)
      rw [read_of_extends above value] at rejected
      cases rejected

theorem waitsExactly_of_waiting {β : Type} {self : PropagatorId}
    {r : Except Inconsistency (Verdict β)} {c : Literal} (control : b.control = some c)
    (has : s.Has c) (value : s.known.read c = none)
    (ran : exec (b.asSum.propagate self) s = .ok (r, t)) : b.WaitsExactly c s t := by
  have unknown : b.asSum.controlValue s.known = none := by
    rw [controlValue, show b.asSum.control = some c from control]
    exact value
  have stays : ¬ b.asSum.Refuted s.known → b.WaitsExactly c s s := by
    intro possible
    refine ⟨fun _ _ => rfl, iff_of_false ?_ ?_⟩
    · rw [Domains.read_eq_known has, value]
      simp
    · exact not_not.2 ((solvable_iff inequality distinct).2 possible)
  cases runsTo_of_exec ran with
  | vacuous rejected => rw [unknown] at rejected; cases rejected
  | conflict required => rw [unknown] at required; cases required
  | pruned required => rw [unknown] at required; cases required
  | waiting _ _ possible => exact stays possible
  | entailed entailed =>
    exact stays (Relation.not_holdsThroughout_negation _ (least_le_greatest _ _) entailed)
  | @rejected c' q _ same refuted required =>
    obtain rfl : c = c' := Option.some.inj (control.symm.trans same)
    obtain ⟨-, known⟩ := known_of_require required value
    constructor
    · intro d other
      rw [known]
      exact if_neg other
    · refine iff_of_true (Domains.read_of_known ?_) ?_
      · rw [known]
        exact read_learnAs _ c false
      · exact fun solvable => (solvable_iff inequality distinct).1 solvable refuted

end solutions

/-- One run is exact for inequalities over distinct domains: whatever the weights, the right-hand
    side and the values so far, it reports and fixes what the completions of the store say. -/
theorem exact_of_propagate {β : Type} {p : WeightedSum ν} {registrations : List Registration}
    (created : create b = .ok (p, registrations)) (inequality : b.relation.IsInequality)
    (distinct : (b.vars.map fun x => (Variable.literal x).domain).Nodup)
    (tracked : s.Tracked) (has : ∀ x ∈ b.vars, s.Has x) (hasControl : ∀ c ∈ b.control, s.Has c)
    (self : PropagatorId) :
    ∃ (r : Except Inconsistency (Verdict β)) (t : Domains),
      exec (p.propagate self) s = .ok (r, t) ∧
        ((∀ c ∈ b.control, s.read c = .ok (some true)) → b.RunsExactly s r t) ∧
        ∀ c ∈ b.control, s.read c = .ok none → b.WaitsExactly c s t := by
  obtain ⟨sizes, rfl, -⟩ := create_ok created
  have distinct := distinct_asSum sizes distinct
  have hasTerms : ∀ u ∈ b.asSum.terms, s.Has u.2 :=
    fun u member => has u.2 (List.of_mem_zip member).2
  obtain ⟨⟨r, t⟩, ran⟩ := returns_propagate (β := β) self tracked hasTerms hasControl
  refine ⟨r, t, ran, ?_, ?_⟩
  · intro required
    apply runsExactly_of_required inequality distinct ?_ ran
    unfold controlValue
    cases control : b.asSum.control with
    | none => rfl
    | some c => exact Domains.known_of_read (required c control)
  · intro c control waiting
    have value := Domains.known_of_read waiting
    exact waitsExactly_of_waiting inequality distinct control (hasControl c control) value ran

/-- 3¬x₀ - 2x₁ + 0x₂ < 0 holds only if x₀ and x₁ are true; x₂ does not matter. -/
theorem exact_of_propagate_strict :
    ∃ (b : Blueprint Literal) (s t : Domains),
      b = ⟨[3, -2, 0], [⟨⟨0⟩, true⟩, ⟨⟨1⟩, false⟩, ⟨⟨2⟩, false⟩], .less, 0, some ⟨⟨3⟩, false⟩⟩ ∧
      s.values = .ofList [none, none, none, some true] ∧
      t.values = .ofList [some true, some true, none, some true] ∧
      b.RunsExactly (β := Unit) s (.ok .atFixpoint) t := by
  let s : Domains := {
    values := .ofList [none, none, none, some true]
    pending := { present := .ofList [.empty, .empty, .empty, .empty] } }
  let b : Blueprint Literal :=
    ⟨[3, -2, 0], [⟨⟨0⟩, true⟩, ⟨⟨1⟩, false⟩, ⟨⟨2⟩, false⟩], .less, 0, some ⟨⟨3⟩, false⟩⟩
  have tracked : s.Tracked := ⟨rfl, by simp [s]⟩
  obtain ⟨r, t, ran, exact, -⟩ := exact_of_propagate (β := Unit) (b := b) rfl (by decide)
    (by decide) tracked (by decide) (by decide) ⟨0⟩
  cases ran
  refine ⟨_, s, _, rfl, rfl, rfl, exact ?_⟩
  intro c control
  cases control
  rfl

end blueprint

end WeightedSum

end PseudoBoolean
