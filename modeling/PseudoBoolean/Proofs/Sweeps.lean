import PseudoBoolean.Proofs.Exactness
import PseudoBoolean.Proofs.Standing

/-!
What a second run would add. The weighted sum computes its bounds once and then fixes one variable
after the other; where a variable that it fixes moves the bound that it works with, there may be
more to fix when it is done, although it reports that it is at its fixpoint. The sums for which the
bounds stay are settled by one run. The others, if there is more to fix, are on the agenda again
once they are told what they did themselves.
-/
namespace PseudoBoolean
open PartialValuation Attempt

theorem PartialValuation.least_eq_greatest {ν : Type} [Variable ν] {e : PartialValuation}
    {terms : List (Int × ν)} (zero : ∀ u ∈ e.free terms, u.1 = 0) :
    e.least terms = e.greatest terms := by
  apply total_congr
  intro u member
  cases value : e.read u.2 with
  | some b => rw [leastTerm_of_read value, greatestTerm_of_read value]
  | none =>
    rw [leastTerm_of_free value, greatestTerm_of_free value,
      zero u (mem_free_iff.2 ⟨member, value⟩)]
    rfl

namespace WeightedSum
variable {ν : Type} [Variable ν] {p : WeightedSum ν} {s t : Domains}

/-- What the sum fixes does not move the bounds that it fixes it by. -/
def OneSweep (p : WeightedSum ν) : Prop :=
  p.relation ≠ .notEqual →
    Distinct p.terms ∧ (p.relation = .equal → ∀ u ∈ p.terms, u.1.natAbs ≤ 1)

instance (p : WeightedSum ν) : Decidable p.OneSweep :=
  inferInstanceAs (Decidable (p.relation ≠ .notEqual →
    Distinct p.terms ∧ (p.relation = .equal → ∀ u ∈ p.terms, u.1.natAbs ≤ 1)))

section prune
variable (pruned : exec (p.prune ⟨s.known.least p.terms, s.known.greatest p.terms,
  s.known.free p.terms⟩) s = .ok (.ok (), t))
include pruned

theorem least_of_pruned (distinct : Distinct p.terms)
    (holds : p.relation.Holds (s.known.least p.terms) p.rhs) :
    t.known.least p.terms = s.known.least p.terms := by
  obtain ⟨v, above, sum⟩ := exists_least distinct s.known
  have kept := (prune_met_of_holds above (sum ▸ holds) pruned).2
  apply Int.le_antisymm
  · calc t.known.least p.terms
        ≤ (ofTotal v).least p.terms := least_mono kept p.terms
      _ = v.sum p.terms := least_ofTotal v p.terms
      _ = s.known.least p.terms := sum
  · exact least_mono (extends_of_exec pruned) p.terms

theorem greatest_of_pruned (distinct : Distinct p.terms)
    (holds : p.relation.Holds (s.known.greatest p.terms) p.rhs) :
    t.known.greatest p.terms = s.known.greatest p.terms := by
  obtain ⟨v, above, sum⟩ := exists_greatest distinct s.known
  have kept := (prune_met_of_holds above (sum ▸ holds) pruned).2
  apply Int.le_antisymm
  · exact greatest_mono (extends_of_exec pruned) p.terms
  · calc s.known.greatest p.terms
        = v.sum p.terms := sum.symm
      _ = (ofTotal v).greatest p.terms := (greatest_ofTotal v p.terms).symm
      _ ≤ t.known.greatest p.terms := greatest_mono kept p.terms

theorem settled_of_pruned_equal (relation : p.relation = .equal) (distinct : Distinct p.terms)
    (unit : ∀ u ∈ p.terms, u.1.natAbs ≤ 1) (possible : ¬ p.Refuted s.known) :
    ¬ p.Refuted t.known ∧ p.Pruned t.known := by
  have low := least_le_rhs (.inr (.inr relation)) possible
  have high := rhs_le_greatest (.inr (.inr relation)) possible
  have left := prune_left pruned
  -- with unit weights either nothing is to be fixed, or all that is free is
  have entailed : (∀ u ∈ t.known.free p.terms, u.1 = 0) → t.known.least p.terms = p.rhs ∨
      t.known.greatest p.terms = p.rhs → ¬ p.Refuted t.known ∧ p.Pruned t.known := by
    intro zero reached
    have same := least_eq_greatest zero
    have entailed : p.Entailed t.known := by
      simp only [Entailed, relation, Relation.HoldsThroughout]
      omega
    exact ⟨p.relation.not_holdsThroughout_negation (least_le_greatest _ _) entailed,
      entailed.pruned⟩
  by_cases atLeast : s.known.least p.terms = p.rhs
  · apply entailed
    · intro u free
      obtain ⟨member, unread⟩ := mem_free_iff.1 free
      have room := (left u member unread).1 (.inr (.inr relation))
      omega
    · left
      rw [least_of_pruned pruned distinct (by rw [relation]; exact atLeast), atLeast]
  by_cases atGreatest : s.known.greatest p.terms = p.rhs
  · apply entailed
    · intro u free
      obtain ⟨member, unread⟩ := mem_free_iff.1 free
      have room := (left u member unread).2 (.inr (.inr relation))
      omega
    · right
      rw [greatest_of_pruned pruned distinct (by rw [relation]; exact atGreatest), atGreatest]
  -- strictly between its bounds a sum of units has room for every term
  have loose : p.Pruned s.known := by
    simp only [Pruned, relation]
    constructor <;> intro u free <;> have weight := unit u (mem_free_iff.1 free).1 <;> omega
  have same := (prune_met (extends_refl _) possible loose pruned).2
  rw [(leadsTo_of_exec pruned).eq_of_extends same]
  exact ⟨possible, loose⟩

theorem settled_of_pruned_capped (relation : p.relation = .atMost ∨ p.relation = .less)
    (distinct : Distinct p.terms) (possible : ¬ p.Refuted s.known) :
    ¬ p.Refuted t.known ∧ p.Pruned t.known := by
  have caps : p.relation.Caps := relation.imp_right Or.inl
  have holds : p.relation.Holds (s.known.least p.terms) p.rhs := by
    rcases relation with relation | relation <;>
      simp only [Refuted, relation, Relation.negation, Relation.HoldsThroughout, Relation.Holds]
        at possible ⊢ <;>
      omega
  have same := least_of_pruned pruned distinct holds
  have slack : t.known.SlackAbove p.terms p.rhs := by
    intro u free
    obtain ⟨member, unread⟩ := mem_free_iff.1 free
    rw [same]
    exact (prune_left pruned u member unread).1 caps
  rcases relation with relation | relation <;>
    simp only [Refuted, Pruned, relation, Relation.negation, Relation.HoldsThroughout, same]
      at possible ⊢ <;>
    exact ⟨possible, slack⟩

theorem settled_of_pruned_floored (relation : p.relation = .atLeast ∨ p.relation = .greater)
    (distinct : Distinct p.terms) (possible : ¬ p.Refuted s.known) :
    ¬ p.Refuted t.known ∧ p.Pruned t.known := by
  have floors : p.relation.Floors := relation.imp_right Or.inl
  have holds : p.relation.Holds (s.known.greatest p.terms) p.rhs := by
    rcases relation with relation | relation <;>
      simp only [Refuted, relation, Relation.negation, Relation.HoldsThroughout, Relation.Holds]
        at possible ⊢ <;>
      omega
  have same := greatest_of_pruned pruned distinct holds
  have slack : t.known.SlackBelow p.terms p.rhs := by
    intro u free
    obtain ⟨member, unread⟩ := mem_free_iff.1 free
    rw [same]
    exact (prune_left pruned u member unread).2 floors
  rcases relation with relation | relation <;>
    simp only [Refuted, Pruned, relation, Relation.negation, Relation.HoldsThroughout, same]
      at possible ⊢ <;>
    exact ⟨possible, slack⟩

theorem avoid_cases (relation : p.relation = .notEqual) :
    t = s ∨ ∃ w x b, s.known.free p.terms = [(w, x)] ∧ t.known = s.known.learnAs x b ∧
      s.known.least p.terms - min w 0 + (if b then 0 else w) = p.rhs := by
  unfold prune at pruned
  rw [relation] at pruned
  cases last : s.known.free p.terms with
  | nil =>
    rw [last] at pruned
    exact .inl (exec_pure_eq pruned).1
  | cons first others =>
    cases others with
    | cons second more =>
      rw [last] at pruned
      exact .inl (exec_pure_eq pruned).1
    | nil =>
      obtain ⟨w, x⟩ := first
      have unread := (mem_free_iff.1 (last ▸ List.mem_cons_self : (w, x) ∈ s.known.free p.terms)).2
      rw [last] at pruned
      simp only [avoid] at pruned
      split at pruned
      · next hit =>
        exact .inr ⟨w, x, true, rfl, (known_of_require pruned unread).2, by simpa using hit⟩
      split at pruned
      · next hit =>
        exact .inr ⟨w, x, false, rfl, (known_of_require pruned unread).2, by simpa using hit⟩
      · exact .inl (exec_pure_eq pruned).1

theorem settled_of_pruned_notEqual (relation : p.relation = .notEqual)
    (possible : ¬ p.Refuted s.known) : ¬ p.Refuted t.known ∧ p.Pruned t.known := by
  have grown := extends_of_exec pruned
  rcases avoid_cases pruned relation with rfl | ⟨w, x, b, last, known, avoided⟩
  · exact ⟨possible, prune_quiet pruned fun _ _ free => free⟩
  have unread := (mem_free_iff.1 (last ▸ List.mem_cons_self : (w, x) ∈ s.known.free p.terms)).2
  have value : t.known.read x = some b := known ▸ read_learnAs s.known x b
  constructor
  · intro refuted
    simp only [Refuted, relation, Relation.negation, Relation.HoldsThroughout] at possible refuted
    have single : ∀ e : PartialValuation, e.least [(w, x)] = e.leastTerm w x :=
      fun _ => Int.add_zero _
    have before := least_split (extends_refl s.known) p.terms
    have after := least_split grown p.terms
    rw [last, single, leastTerm_of_free unread] at before
    rw [last, single, leastTerm_of_read value] at after
    -- the two values of the term differ by its weight, so it would have to be zero
    have zero : w = 0 := by cases b <;> simp at avoided after <;> omega
    have same : s.known.least p.terms = s.known.greatest p.terms :=
      least_eq_greatest (by simp [last, zero])
    subst zero
    simp at before after
    omega
  · apply pruned_of_known
    intro u member free
    have open_ : u ∈ s.known.free p.terms := by
      refine mem_free_iff.2 ⟨member, ?_⟩
      cases known : s.known.read u.2 with
      | none => rfl
      | some c =>
        rw [read_of_extends grown known] at free
        cases free
    rw [last, List.mem_singleton] at open_
    subst open_
    rw [value] at free
    cases free

theorem settled_of_pruned (sweep : p.OneSweep) (possible : ¬ p.Refuted s.known) :
    ¬ p.Refuted t.known ∧ p.Pruned t.known := by
  cases relation : p.relation with
  | notEqual => exact settled_of_pruned_notEqual pruned relation possible
  | equal =>
    obtain ⟨distinct, unit⟩ := sweep (by rw [relation]; decide)
    exact settled_of_pruned_equal pruned relation distinct (unit relation) possible
  | atMost =>
    exact settled_of_pruned_capped pruned (.inl relation) (sweep (by rw [relation]; decide)).1
      possible
  | less =>
    exact settled_of_pruned_capped pruned (.inr relation) (sweep (by rw [relation]; decide)).1
      possible
  | atLeast =>
    exact settled_of_pruned_floored pruned (.inl relation) (sweep (by rw [relation]; decide)).1
      possible
  | greater =>
    exact settled_of_pruned_floored pruned (.inr relation) (sweep (by rw [relation]; decide)).1
      possible

end prune

theorem stableAt_of_oneSweep {β : Type} {self : PropagatorId} (sweep : p.OneSweep)
    (h : exec (p.propagate (β := β) self) s = .ok (.ok .atFixpoint, t)) : p.StableAt t.known := by
  generalize outcome : (Except.ok .atFixpoint : Except Inconsistency (Verdict β)) = r at h
  cases runsTo_of_exec h with
  | vacuous | entailed | conflict => cases outcome
  | @rejected c q => cases q <;> cases outcome
  | waiting value _ possible => exact (stableAt_of_control_free value).2 possible
  | @pruned q _ value _ possible required =>
    cases q with
    | error i => cases outcome
    | ok _ =>
      have value := controlValue_of_extends (extends_of_exec required) value
      exact (stableAt_of_control_true value).2 (settled_of_pruned required sweep possible)

end WeightedSum

theorem eq_of_stableAt {κ : Type} [PropagatorKinds κ] [Semantics κ] [Contract κ]
    {p q : AnyPropagator κ} {self : PropagatorId} {s t : Domains}
    {outcome : Except Inconsistency (Verdict (AnyBlueprint κ))}
    (consistent : Semantics.Consistent p) (stable : Semantics.StableAt p s.known)
    (ran : (p.propagate self).run s = .ok ((q, outcome), t)) : t = s := by
  have justified := (Contract.ran consistent ran).justified
  apply ((p.propagate self).leadsTo ran).eq_of_extends
  cases outcome with
  | error i => exact absurd stable (justified _ (extends_refl _))
  | ok verdict =>
    cases verdict with
    | atFixpoint => exact justified _ (extends_refl _) stable
    | subsumed => exact justified.1 _ (extends_refl _) stable
    | replaceBy b => exact justified.1 _ (extends_refl _) stable

namespace Standard
open Semantics
variable {s t : Domains} {self : PropagatorId} {p q : AnyPropagator Kind}

def SettlesAtOnce : AnyPropagator Kind → Prop
  | ⟨.atLeast _, _⟩ => True
  | ⟨.impliedAtLeast _, _⟩ => True
  | ⟨.weightedSum _, p⟩ => WeightedSum.OneSweep p

instance : (p : AnyPropagator Kind) → Decidable (SettlesAtOnce p)
  | ⟨.atLeast _, _⟩ => inferInstanceAs (Decidable True)
  | ⟨.impliedAtLeast _, _⟩ => inferInstanceAs (Decidable True)
  | ⟨.weightedSum o, p⟩ =>
    (inferInstance : (p : WeightedSum o.Var) → Decidable p.OneSweep) p

theorem stableAt_of_atFixpoint (settles : SettlesAtOnce p ∨ t = s) (consistent : Consistent p)
    (current : Current p s.known fun _ => False)
    (ran : (p.propagate self).run s = .ok ((q, .ok .atFixpoint), t)) : StableAt p t.known := by
  by_cases still : t = s
  · subst still
    refine Contract.stableAt_of_settled consistent current ?_
    exact (Contract.ran consistent ran).settled rfl fun _ _ _ => .inr ⟨rfl, id⟩
  have settles := settles.resolve_right still
  obtain ⟨k, p⟩ := p
  obtain ⟨next, -, done⟩ := run_own ran
  cases k with
  | atLeast o =>
    obtain ⟨-, attempted⟩ := run_keeping_pair done
    obtain ⟨notReached, loose⟩ := AtLeast.calm_of_atFixpoint attempted
    exact absurd (AtLeast.idle notReached loose attempted).2 still
  | impliedAtLeast o =>
    rcases run_cases_impliedAtLeast done with ⟨verdict, attempted, same⟩ | ⟨i, -, -, never⟩
    · cases verdict <;> cases same
      exact absurd (ImpliedAtLeast.calm_of_atFixpoint attempted).2.1 still
    · cases never
  | weightedSum o => exact WeightedSum.stableAt_of_oneSweep settles (run_keeping_pair done).2

end Standard

namespace State
open Standard

section twice
variable {κ : Type} [PropagatorKinds κ] {v w x : State κ} {id : PropagatorId}
  {p : AnyPropagator κ} {after : Domains}

/-- In the state `v` the propagator `p` runs and reports that it is at its fixpoint; once all that
    it did is delivered, in the state `x`, it runs again, which leaves the store `after`. -/
inductive RunsTwice (v : State κ) (id : PropagatorId) (p : AnyPropagator κ) (x : State κ)
    (after : Domains) : Prop where
  | intro {w : State κ} {q p' q' : AnyPropagator κ}
      {outcome : Except Inconsistency (Verdict (AnyBlueprint κ))} :
      (p.propagate id).run v.domains = .ok ((q, .ok .atFixpoint), w.domains) →
        v.runPropagator id = .ok (.ok (), w) → w.deliverPending = .ok x →
          x.roster.get? id = some p' →
            (p'.propagate id).run x.domains = .ok ((q', outcome), after) → RunsTwice v id p x after

def runsTwice (v : State κ) (id : PropagatorId) (p : AnyPropagator κ)
    (check : State κ → Domains → Bool) : Bool :=
  match (p.propagate id).run v.domains, v.runPropagator id with
  | .ok ((_, .ok .atFixpoint), t), .ok (.ok (), w) =>
    decide (t = w.domains) && w.deliverPending.toOption.any fun x =>
      (x.roster.get? id).any fun p' =>
        ((p'.propagate id).run x.domains).toOption.any fun (_, after) => check x after
  | _, _ => false

theorem exists_of_runsTwice {check : State κ → Domains → Bool}
    (h : v.runsTwice id p check = true) :
    ∃ x after, v.RunsTwice id p x after ∧ check x after = true := by
  unfold runsTwice at h
  split at h
  case h_2 => cases h
  next q t w first done =>
  obtain ⟨same, second⟩ := Bool.and_eq_true_iff.1 h
  obtain rfl := of_decide_eq_true same
  obtain ⟨x, delivered, again⟩ := exists_of_any second
  obtain ⟨p', active, evaluated⟩ := (Option.any_eq_true ..).mp again
  obtain ⟨⟨⟨q', outcome⟩, after⟩, ran, checked⟩ := exists_of_any evaluated
  exact ⟨x, after, .intro first done delivered active ran, checked⟩

theorem ranTo_of_atFixpoint {q : AnyPropagator κ} {t : Domains} {r : Except Inconsistency Unit}
    (active : v.roster.get? id = some p)
    (first : (p.propagate id).run v.domains = .ok ((q, .ok .atFixpoint), t))
    (done : v.runPropagator id = .ok (r, w)) :
    r = .ok () ∧ w.domains = t ∧ v.RanTo id q (.ok .atFixpoint) w := by
  rcases runPropagator_eq done with ⟨gone, -⟩ | ⟨p', q', outcome, u, found, again, left, ended⟩
  · rw [isActive_of_get? active] at gone
    cases gone
  obtain rfl := Option.some.inj (active.symm.trans found)
  cases again.symm.trans first
  rcases ended with ⟨i, never, -⟩ | ⟨verdict, same, rfl, concluded⟩
  · cases never
  cases same
  obtain rfl := pure_eq_ok_iff.1 concluded
  exact ⟨rfl, rfl, left⟩

theorem RunsTwice.entries_mono (active : v.roster.get? id = some p) (h : v.RunsTwice id p x after) :
    ∀ y ∈ v.entries, y ∈ x.entries := by
  obtain @⟨w, _, _, _, _, first, done, delivered, -, -⟩ := h
  obtain ⟨-, -, ranTo⟩ := ranTo_of_atFixpoint active first done
  obtain ⟨domains, written, -, told, -⟩ := delivered_deliverPending delivered
  intro y member
  have recorded : y ∈ w.entries := by
    rw [ranTo.entries]
    exact List.mem_append_left _ member
  rw [told.entries]
  exact List.mem_append_left written recorded

theorem exists_runsTwice [Semantics κ] [Contract κ] [Progress κ] {q : AnyPropagator κ} {t : Domains}
    (intact : v.Intact) (active : v.roster.get? id = some p)
    (first : (p.propagate id).run v.domains = .ok ((q, .ok .atFixpoint), t)) :
    ∃ x after, v.RunsTwice id p x after := by
  obtain ⟨⟨r, w⟩, done⟩ := returns_runPropagator intact id
  obtain ⟨rfl, rfl, ranTo⟩ := ranTo_of_atFixpoint active first done
  have intact := (spent_runPropagator intact done).intact
  obtain ⟨x, delivered⟩ := returns_deliverPending intact
  obtain ⟨domains, written, -, told, -⟩ := delivered_deliverPending delivered
  have present : x.isActive id = true := by
    rw [told.active]
    change w.isActive id = true
    apply isActive_of_get? (p := q)
    rw [Roster.get?_of_replace ranTo.replaced, if_pos rfl]
  obtain ⟨p', active⟩ := Option.isSome_iff_exists.1 present
  obtain ⟨_, -, kept, -⟩ := told_deliverPending intact delivered
  obtain ⟨q', outcome, after, ran, -⟩ :=
    Progress.ran id kept.intact.domains (kept.intact.grounded active)
  exact ⟨x, after, .intro first done delivered active ran⟩

end twice

section running
variable {s v x : State Kind} {id : PropagatorId} {p q : AnyPropagator Kind} {t after : Domains}

theorem RunsTwice.queued (coherent : v.Coherent nothingDue (some id)) (sound : v.failure = none)
    (intact : v.Intact) (h : v.RunsTwice id p x after) (moved : after ≠ x.domains) :
    x.agenda.contains id = true := by
  obtain ⟨-, done, delivered, active, ran⟩ := h
  have intact := (spent_runPropagator intact done).intact
  obtain ⟨_, -, told, -⟩ := told_deliverPending intact delivered
  rcases runPropagator_keeps coherent sound done with ⟨-, kept⟩ | ⟨i, never, -⟩
  case inr => cases never
  obtain ⟨coherent, quiet, -⟩ := deliverPending_keeps kept.coherent delivered
  rcases (coherent.attended active).settled with (never | queued) | settled
  · cases never
  · exact queued
  · rw [news_of_quiet quiet] at settled
    have idle := idle_of_settled id told.intact.domains (told.intact.grounded active) settled
    cases ran.symm.trans idle
    exact absurd rfl moved

/-- The store that the first run leaves is one of the propagator's stable points, and stays one when
    it is told what it did. -/
theorem RunsTwice.unmoved (coherent : v.Coherent nothingDue (some id)) (sound : v.failure = none)
    (quiet : v.domains.pending.events = []) (standing : v.Standing) {b : AnyBlueprint Kind}
    {seen : Domains} {made : AnyPropagator Kind} (member : .created id b seen made ∈ v.entries)
    (active : v.roster.get? id = some p) (h : v.RunsTwice id p x after)
    (first : (p.propagate id).run v.domains = .ok ((q, .ok .atFixpoint), t))
    (settles : SettlesAtOnce p ∨ t = v.domains) : after = x.domains := by
  have recorded := h.entries_mono active _ member
  obtain ⟨again, done, delivered, active', ran⟩ := h
  cases again.symm.trans first
  rcases runPropagator_keeps coherent sound done with ⟨-, kept⟩ | ⟨i, never, -⟩
  case inr => cases never
  obtain ⟨coherent', -, works⟩ := deliverPending_keeps kept.coherent delivered
  have standing' := (standing.of_works (.single (.ran coherent sound done))).of_works works
  have attended := coherent.attended active
  have current := attended.current
  rw [news_of_quiet quiet] at current
  have stable := stableAt_of_atFixpoint settles attended.consistent current first
  have grown := ((p.propagate id).leadsTo first).extends
  have known := known_of_deliverPending delivered
  apply eq_of_stableAt (coherent'.attended active').consistent ?_ ran
  rw [standing'.stands recorded active' _ (extends_refl _), known]
  exact (standing.stands member active _ grown).1 stable

/-- When a propagator reports that it is at its fixpoint, running it again changes nothing if one
    run settles it or the first run changed nothing; and if it does change something, the propagator
    is on the agenda already. -/
theorem second_run_of_atFixpoint (reachable : s.Reachable) (next : s.AboutToRun id p v)
    (first : (p.propagate id).run v.domains = .ok ((q, .ok .atFixpoint), t)) :
    (∃ x after, v.RunsTwice id p x after) ∧
      ∀ x after, v.RunsTwice id p x after →
        (SettlesAtOnce p ∨ t = v.domains → after = x.domains) ∧
          (after ≠ x.domains → x.agenda.contains id = true) := by
  obtain ⟨coherent, works⟩ := next.works reachable.wellFormed
  have intact := next.intact reachable.intact
  refine ⟨exists_runsTwice intact next.active first, ?_⟩
  intro x after twice
  refine ⟨?_, twice.queued coherent next.sound intact⟩
  have attentive := kept_attentive.aboutToRun
    (kept_attentive.reachable attentive_new Attentive.newLiteral reachable) next
  obtain ⟨b, seen, made, member⟩ := attentive.present (isActive_of_get? next.active)
  have standing := (reachable.standing next.start_sound).of_works works
  exact twice.unmoved coherent next.sound next.quiet standing member next.active first

/-- 3x₀ + 2x₁ + 2x₂ ≥ 5 needs x₀, and with it has room for either value of the other two. -/
theorem second_run_of_atFixpoint_settled :
    let ops : List (Operation Kind) := [.newLiteral, .newLiteral, .newLiteral,
      .addPropagator ⟨.weightedSum .literals, WeightedSum.Blueprint.mk [3, 2, 2]
        [.positive ⟨0⟩, .positive ⟨1⟩, .positive ⟨2⟩] .atLeast 5 none⟩]
    ∃ s v p x after, (State.new .standard).Accepts ops s ∧ s.AboutToRun ⟨0⟩ p v ∧
      SettlesAtOnce p ∧ v.RunsTwice ⟨0⟩ p x after ∧
      x.domains.values = .ofList [some true, none, none] ∧ after = x.domains := by
  intro ops
  obtain ⟨s, run, runs⟩ := accepts_of_reaches (State.new .standard) ops
    (fun s => s.runsFirst ⟨0⟩ fun v p => decide (SettlesAtOnce p) &&
      v.runsTwice ⟨0⟩ p fun x _ => decide (x.domains.values = .ofList [some true, none, none]))
    (by decide +kernel)
  obtain ⟨v, p, next, checked⟩ := aboutToRun_of_runsFirst runs
  obtain ⟨settles, evaluated⟩ := Bool.and_eq_true_iff.1 checked
  obtain ⟨x, after, twice, values⟩ := exists_of_runsTwice evaluated
  obtain ⟨first, -⟩ := id twice
  obtain ⟨_, ran, _⟩ := id run
  have reachable : s.Reachable := ⟨.standard, leadsTo_of_run ran⟩
  have settles := of_decide_eq_true settles
  refine ⟨s, v, p, x, after, run, next, settles, twice, of_decide_eq_true values, ?_⟩
  exact ((second_run_of_atFixpoint reachable next first).2 x after twice).1 (.inl settles)

/-- 4x₀ + 3x₁ + x₂ = 5 needs x₀, as the others come to 4 only; with x₀ there is no room for x₁, but
    the run has seen to the bound from above already. -/
theorem second_run_fixes_more :
    let ops : List (Operation Kind) := [.newLiteral, .newLiteral, .newLiteral,
      .addPropagator ⟨.weightedSum .literals, WeightedSum.Blueprint.mk [4, 3, 1]
        [.positive ⟨0⟩, .positive ⟨1⟩, .positive ⟨2⟩] .equal 5 none⟩]
    ∃ s v p x after, (State.new .standard).Accepts ops s ∧ s.AboutToRun ⟨0⟩ p v ∧
      v.RunsTwice ⟨0⟩ p x after ∧ x.domains.values = .ofList [some true, none, none] ∧
      after.values = .ofList [some true, some false, none] := by
  intro ops
  obtain ⟨s, run, runs⟩ := accepts_of_reaches (State.new .standard) ops
    (fun s => s.runsFirst ⟨0⟩ fun v p => v.runsTwice ⟨0⟩ p fun x after =>
      decide (x.domains.values = .ofList [some true, none, none] ∧
        after.values = .ofList [some true, some false, none]))
    (by decide +kernel)
  obtain ⟨v, p, next, twice⟩ := aboutToRun_of_runsFirst runs
  obtain ⟨x, after, twice, values⟩ := exists_of_runsTwice twice
  exact ⟨s, v, p, x, after, run, next, twice, of_decide_eq_true values⟩

end running

end State
end PseudoBoolean
