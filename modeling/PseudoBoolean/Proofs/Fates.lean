import PseudoBoolean.Proofs.Lockstep

/-!
What becomes of the propagators. Whether a standard propagator is still there at a fixpoint, or was
retired or replaced on the way, can be told from the values alone. So the names of the propagators
that will be left, taken as a function of the values to come, do not change while a state is
propagated, and at a fixpoint they are the names of those that are there.
-/
namespace PseudoBoolean
open PartialValuation Attempt

inductive Fate where
  | stays
  /-- A count that holds always takes over. -/
  | replaced
  | retires
deriving DecidableEq, Repr

namespace WeightedSum
variable {ν : Type} [Variable ν] {p : WeightedSum ν} {e d : PartialValuation}

def Discharged (p : WeightedSum ν) (e : PartialValuation) : Prop :=
  p.controlValue e = some false ∨ p.Entailed e

instance (p : WeightedSum ν) (e : PartialValuation) : Decidable (p.Entailed e) :=
  inferInstanceAs (Decidable (p.relation.HoldsThroughout (e.least p.terms) (e.greatest p.terms)
    p.rhs))

instance (p : WeightedSum ν) (e : PartialValuation) : Decidable (p.Discharged e) :=
  inferInstanceAs (Decidable (p.controlValue e = some false ∨ p.Entailed e))

theorem Discharged.mono (above : e.Extends d) (h : p.Discharged d) : p.Discharged e :=
  h.imp (controlValue_of_extends above) (Entailed.mono above)

theorem Calm.not_discharged (h : p.Calm e) : ¬ p.Discharged e := not_or.2 ⟨h.required, h.undecided⟩

theorem discharged_iff_of_alike {μ : Type} [Variable μ] {q : WeightedSum μ} (h : Alike e p q) :
    p.Discharged e ↔ q.Discharged e := by
  rw [Discharged, Discharged, h.control, h.entailed]

/-- Where the propagator of a sum ends, given what happens to it under a control that is true. -/
def fate (enforced : Fate) (p : WeightedSum ν) (e : PartialValuation) : Fate :=
  if p.Discharged e then .retires
  else if p.controlValue e = some true then enforced
  else .stays

variable {enforced : Fate}

theorem fate_of_alike {μ : Type} [Variable μ] {q : WeightedSum μ} (h : Alike e p q) :
    p.fate enforced e = q.fate enforced e := by
  simp only [fate, discharged_iff_of_alike h, h.control]

theorem fate_of_discharged (above : e.Extends d) (h : p.Discharged d) :
    p.fate enforced e = .retires := if_pos (h.mono above)

theorem fate_stays (h : ¬ p.Discharged e) : p.fate .stays e = .stays := by
  rw [fate, if_neg h, ite_self]

theorem fate_of_control_free (h : ¬ p.Discharged e) (free : p.controlValue e = none) :
    p.fate enforced e = .stays := by
  rw [fate, if_neg h, free, if_neg nofun]

end WeightedSum

section counting
variable {ν : Type} [Variable ν] {e : PartialValuation}

theorem WeightedSum.count_not_entailed {control : Option Literal} {xs : List ν} {threshold : Int}
    (open_ : 0 < threshold) (free : ∀ x ∈ xs, e.read x = none) :
    ¬ (WeightedSum.count control xs threshold).Entailed e := by
  have nothing : e.numTrue xs = 0 := by
    apply List.countP_eq_zero.2
    intro x member
    simp [free x member]
  rw [WeightedSum.count_entailed_iff]
  omega

theorem AtLeast.discharged_of_subsumed {β : Type} {p : AtLeast ν} {self : PropagatorId}
    {s t : Domains} (h : exec (p.propagate (β := β) self) s = .ok (.ok .subsumed, t)) :
    p.asSum.Discharged t.known := by
  generalize outcome : (Except.ok .subsumed : Except Inconsistency (Verdict β)) = r at h
  cases runsTo_of_exec h with
  | conflict | waiting => cases outcome
  | reached reached => exact Or.inr (WeightedSum.count_entailed_of_reached reached)
  | @tight q _ reachable tight required =>
    cases q with
    | error i => cases outcome
    | ok done =>
      have values := read_after_requireAll required
      have all : t.known.numTrue p.unfixed.toList = p.unfixed.toList.length := by
        apply List.countP_eq_length.2
        intro x member
        simp [values x member]
      unfold IsUnreachable at reachable
      refine Or.inr (WeightedSum.count_entailed_iff.2 ?_)
      rw [all, p.unfixed.length_toList]
      omega

theorem AtLeast.not_replaceBy {β : Type} {p : AtLeast ν} {self : PropagatorId} {s t : Domains}
    {b : β} : exec (p.propagate self) s ≠ .ok (.ok (.replaceBy b), t) := by
  intro h
  generalize outcome : (Except.ok (.replaceBy b) : Except Inconsistency (Verdict β)) = r at h
  cases runsTo_of_exec h with
  | reached | conflict | waiting => cases outcome
  | @tight q => cases q <;> cases outcome

theorem WeightedSum.not_replaceBy {β : Type} {p : WeightedSum ν} {self : PropagatorId}
    {s t : Domains} {b : β} : exec (p.propagate self) s ≠ .ok (.ok (.replaceBy b), t) := by
  intro h
  generalize outcome : (Except.ok (.replaceBy b) : Except Inconsistency (Verdict β)) = r at h
  cases runsTo_of_exec h with
  | vacuous | entailed | conflict | waiting => cases outcome
  | @rejected _ q | @pruned q => cases q <;> cases outcome

theorem ImpliedAtLeast.discharged_of_subsumed {p q : ImpliedAtLeast ν} {s t : Domains}
    (h : exec p.propagate s = .ok (.ok (q, .subsumed), t)) : p.asSum.Discharged t.known := by
  generalize outcome : Except.ok (q, Verdict.subsumed) = r at h
  cases runsTo_of_exec h with
  | vacuous value => exact Or.inl value
  | reached reached => exact Or.inr (WeightedSum.count_entailed_of_reached reached)
  | @rejected required _ _ done =>
    cases required with
    | error i => cases outcome
    | ok _ => exact Or.inl ((extends_after_require done _).1 (extends_refl _)).2
  | waiting | replaced => cases outcome

theorem ImpliedAtLeast.fate_of_replaced {p q : ImpliedAtLeast ν} {b : AtLeast.Blueprint ν}
    {s t : Domains} (h : exec p.propagate s = .ok (.ok (q, .replaceBy b), t))
    (above : e.Extends t.known) :
    (p.asSum.fate .replaced e = .replaced ∧ b.asSum.fate .stays e = .stays) ∨
      (p.asSum.fate .replaced e = .retires ∧ b.asSum.fate .stays e = .retires) := by
  generalize outcome : Except.ok (q, Verdict.replaceBy b) = done at h
  cases runsTo_of_exec h with
  | vacuous | reached | waiting => cases outcome
  | @rejected required => cases required <;> cases outcome
  | replaced value =>
    cases outcome
    have enforced : p.asSum.controlValue e = some true := read_of_extends above value
    have same : (WeightedSum.count none p.unfixed.toList p.threshold).Discharged e ↔
        p.asSum.Discharged e := by
      rw [WeightedSum.Discharged, WeightedSum.Discharged, enforced]
      rfl
    by_cases settled : p.asSum.Discharged e
    · exact Or.inr ⟨if_pos settled, if_pos (same.2 settled)⟩
    · refine Or.inl ⟨?_, WeightedSum.fate_stays (mt same.1 settled)⟩
      rw [WeightedSum.fate, if_neg settled, if_pos enforced]

theorem WeightedSum.discharged_of_subsumed {β : Type} {p : WeightedSum ν} {self : PropagatorId}
    {s t : Domains} (h : exec (p.propagate (β := β) self) s = .ok (.ok .subsumed, t)) :
    p.Discharged t.known := by
  generalize outcome : (Except.ok .subsumed : Except Inconsistency (Verdict β)) = r at h
  cases runsTo_of_exec h with
  | vacuous value => exact Or.inl value
  | entailed holds => exact Or.inr holds
  | @rejected c required _ control _ done =>
    cases required with
    | error i => cases outcome
    | ok _ =>
      have value := ((extends_after_require done _).1 (extends_refl _)).2
      refine Or.inl ?_
      rw [controlValue, control]
      exact value
  | conflict | waiting => cases outcome
  | @pruned required => cases required <;> cases outcome

end counting

namespace Standard
open Semantics

def fate : AnyPropagator Kind → PartialValuation → Fate
  | ⟨.atLeast _, p⟩ => (AtLeast.asSum p).fate .stays
  | ⟨.impliedAtLeast _, p⟩ => (ImpliedAtLeast.asSum p).fate .replaced
  | ⟨.weightedSum _, p⟩ => WeightedSum.fate .stays p

def fateAsked : AnyBlueprint Kind → PartialValuation → Fate
  | ⟨.atLeast _, b⟩ => (AtLeast.Blueprint.asSum b).fate .stays
  | ⟨.impliedAtLeast _, b⟩ => (ImpliedAtLeast.Blueprint.asSum b).fate .replaced
  | ⟨.weightedSum _, b⟩ => (WeightedSum.Blueprint.asSum b).fate .stays

theorem fate_of_created {b : AnyBlueprint Kind} {p : AnyPropagator Kind} {s : Domains}
    {registrations : List Registration} (h : b.create s = .ok (p, registrations)) :
    p.name = b.1.name ∧ ∀ e, e.Extends s.known → fate p e = fateAsked b e := by
  obtain ⟨k, b⟩ := b
  obtain ⟨⟨made, asked⟩, built, outcome⟩ := bind_eq_ok_iff.1 h
  obtain ⟨rfl, -⟩ := pure_pair_eq_ok_iff.1 outcome
  refine ⟨rfl, fun e above => ?_⟩
  cases k with
  | atLeast o => exact WeightedSum.fate_of_alike (AtLeast.alike_create built above)
  | impliedAtLeast o => exact WeightedSum.fate_of_alike (ImpliedAtLeast.alike_create built above)
  | weightedSum o =>
    obtain ⟨-, rfl, -⟩ := WeightedSum.create_ok built
    rfl

/-- Propagators of one name that meet with one fate, whatever values come to be known. -/
structure Matches (known : PartialValuation) (p q : AnyPropagator Kind) : Prop where
  name : p.name = q.name
  fate : ∀ e, e.Extends known → fate p e = fate q e

theorem matches_of_notify {p q : AnyPropagator Kind} {s : Domains} {n : LocalId} {event : Event}
    {decision : Decision} (consistent : Consistent p)
    (told : ∀ d, watch p n = some d → s.known d = some event.value)
    (h : p.notify s n event = .ok (q, decision)) : Matches s.known q p := by
  obtain ⟨k, p⟩ := p
  obtain ⟨⟨next, decided⟩, done, outcome⟩ := bind_eq_ok_iff.1 h
  obtain ⟨rfl, rfl⟩ := pure_pair_eq_ok_iff.1 outcome
  refine ⟨rfl, fun e above => ?_⟩
  cases k with
  | atLeast o =>
    apply WeightedSum.fate_of_alike (AtLeast.alike_notify consistent done _)
    intro x held
    exact read_of_event above (told _ (OpenVariables.watch_of_at? held))
  | impliedAtLeast o =>
    apply WeightedSum.fate_of_alike (ImpliedAtLeast.alike_notify consistent done _)
    intro x other held
    exact read_of_event above (told _ (ImpliedAtLeast.watch_of_at? other held))
  | weightedSum o =>
    obtain ⟨rfl, -⟩ := pure_pair_eq_ok_iff.1 done
    rfl

section run
variable {p q : AnyPropagator Kind} {self : PropagatorId} {s t : Domains} {e : PartialValuation}

theorem fate_of_subsumed (h : (p.propagate self).run s = .ok ((q, .ok .subsumed), t))
    (above : e.Extends t.known) : fate p e = .retires := by
  obtain ⟨k, p⟩ := p
  obtain ⟨next, rfl, done⟩ := run_own h
  cases k with
  | atLeast o =>
    exact WeightedSum.fate_of_discharged above
      (AtLeast.discharged_of_subsumed (run_keeping_pair done).2)
  | weightedSum o =>
    exact WeightedSum.fate_of_discharged above
      (WeightedSum.discharged_of_subsumed (run_keeping_pair done).2)
  | impliedAtLeast o =>
    rcases run_cases_impliedAtLeast done with ⟨verdict, attempted, same⟩ | ⟨i, -, -, stopped⟩
    · cases verdict <;> cases same
      exact WeightedSum.fate_of_discharged above (ImpliedAtLeast.discharged_of_subsumed attempted)
    · cases stopped

/-- What takes over goes by the name of a count, and stays unless the propagator could have
    retired. -/
theorem fate_of_replaced {b : AnyBlueprint Kind} {r : AnyPropagator Kind}
    {registrations : List Registration}
    (h : (p.propagate self).run s = .ok ((q, .ok (.replaceBy b)), t))
    (created : b.create t = .ok (r, registrations)) (above : e.Extends t.known) :
    r.name = (Kind.atLeast .literals).name ∧
      ((fate p e = .replaced ∧ fate r e = .stays) ∨
        (fate p e = .retires ∧ fate r e = .retires)) := by
  obtain ⟨k, p⟩ := p
  obtain ⟨next, rfl, done⟩ := run_own h
  cases k with
  | atLeast o =>
    exact absurd (run_keeping_pair done).2 AtLeast.not_replaceBy
  | weightedSum o =>
    exact absurd (run_keeping_pair done).2 WeightedSum.not_replaceBy
  | impliedAtLeast o =>
    rcases run_cases_impliedAtLeast done with ⟨verdict, attempted, same⟩ | ⟨i, -, -, stopped⟩
    · cases verdict <;> cases same
      obtain ⟨name, asked⟩ := fate_of_created created
      rw [asked e above]
      exact ⟨name, ImpliedAtLeast.fate_of_replaced attempted above⟩
    · cases stopped

theorem fate_of_settled (consistent : Consistent p) (current : Current p s.known fun _ => False)
    (settled : Settled p s.known fun _ => False) : fate p s.known = .stays := by
  obtain ⟨k, p⟩ := p
  cases k with
  | atLeast o =>
    apply WeightedSum.fate_stays
    rintro (never | entailed)
    · cases never
    · exact WeightedSum.count_not_entailed (Int.not_le.1 settled.1)
        (OpenVariables.free_of_current consistent current) entailed
  | impliedAtLeast o =>
    have settled : ImpliedAtLeast.Settled p s.known fun _ => False := settled
    have free : (ImpliedAtLeast.asSum p).controlValue s.known = none :=
      settled.control.resolve_right id
    apply WeightedSum.fate_of_control_free _ free
    rintro (vacuous | entailed)
    · rw [free] at vacuous
      cases vacuous
    · exact WeightedSum.count_not_entailed (Int.not_le.1 settled.notReached)
        (OpenVariables.free_of_current (ImpliedAtLeast.Consistent.unfixed consistent) current)
        entailed
  | weightedSum o =>
    rcases settled with calm | ⟨_, _, _, fresh⟩
    · exact WeightedSum.fate_stays calm.not_discharged
    · exact absurd fresh id

end run
end Standard
end PseudoBoolean
