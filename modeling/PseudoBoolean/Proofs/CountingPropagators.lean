import PseudoBoolean.Proofs.Counting

/-!
The propagators that count. Their counters stand for a count over the variables that they still
hold, and stay exact event by event; a run is justified by that count, and a run that finds nothing
leaves a store at which the count is stable.
-/
namespace PseudoBoolean
open PartialValuation Attempt
variable {ν : Type}

theorem Decision.eq_enqueue_iff (c : Prop) [Decidable c] :
    (if c then Decision.enqueue else .skip) = .enqueue ↔ c := by
  by_cases h : c <;> simp [h]

def AtLeast.Blueprint.asSum (b : AtLeast.Blueprint ν) : WeightedSum ν :=
  .count none b.vars b.threshold

def ImpliedAtLeast.Blueprint.asSum (b : ImpliedAtLeast.Blueprint ν) : WeightedSum ν :=
  .count (some b.control) b.vars b.threshold

def AtLeast.asSum (p : AtLeast ν) : WeightedSum ν := .count none p.unfixed.toList p.threshold

def ImpliedAtLeast.asSum (p : ImpliedAtLeast ν) : WeightedSum ν :=
  .count (some p.control) p.unfixed.toList p.threshold

structure ImpliedAtLeast.Consistent (p : ImpliedAtLeast ν) : Prop where
  unfixed : p.unfixed.Consistent
  apart : p.unfixed.at? p.controlNumber = none
  numUnfixed : p.numUnfixed = p.unfixed.size

variable [Variable ν]

namespace AtLeast

theorem alike_create {b : Blueprint ν} {s : Domains} {p : AtLeast ν}
    {registrations : List Registration} (h : create b s = .ok (p, registrations))
    {e : PartialValuation} (above : e.Extends s.known) :
    WeightedSum.Alike e p.asSum b.asSum := by
  obtain ⟨⟨rest, n⟩, separated, h⟩ := bind_eq_ok_iff.1 h
  obtain ⟨rfl, -⟩ := pure_pair_eq_ok_iff.1 h
  exact (WeightedSum.count_alike_separate separated above).symm

theorem consistent_of_create {b : Blueprint ν} {s : Domains} {p : AtLeast ν}
    {registrations : List Registration} (h : create b s = .ok (p, registrations)) :
    p.unfixed.Consistent := by
  obtain ⟨⟨rest, n⟩, -, h⟩ := bind_eq_ok_iff.1 h
  obtain ⟨rfl, -⟩ := pure_pair_eq_ok_iff.1 h
  exact OpenVariables.consistent_ofList rest

theorem notify_cases {p q : AtLeast ν} (consistent : p.unfixed.Consistent) {number : LocalId}
    {event : Event} {decision : Decision} (h : p.notify number event = .ok (q, decision)) :
    (p.unfixed.at? number = none ∧ q = p ∧ decision = .skip) ∨
      ∃ x, p.unfixed.at? number = some x ∧ q.unfixed.Consistent ∧
        p.unfixed.toList.Perm (x :: q.unfixed.toList) ∧
        (∀ k, q.unfixed.at? k = if k = number then none else p.unfixed.at? k) ∧
        q.threshold = (if ((Variable.literal x).observe event).value
          then saturatingSub p.threshold 1 else p.threshold) ∧
        (decision = .enqueue ↔ q.IsReached ∨ q.IsTight) := by
  obtain ⟨⟨found, unfixed⟩, removed, h⟩ := bind_eq_ok_iff.1 h
  rcases OpenVariables.remove_cases consistent removed with
    ⟨rfl, unknown, -⟩ | ⟨x, rfl, known, after, same, others⟩
  · obtain ⟨rfl, rfl⟩ := pure_pair_eq_ok_iff.1 h
    exact Or.inl ⟨unknown, rfl, rfl⟩
  · obtain ⟨rfl, rfl⟩ := pure_pair_eq_ok_iff.1 h
    exact Or.inr ⟨x, known, after, same, others, rfl, Decision.eq_enqueue_iff _⟩

theorem alike_notify {p q : AtLeast ν} (consistent : p.unfixed.Consistent) {number : LocalId}
    {event : Event} {decision : Decision} (h : p.notify number event = .ok (q, decision))
    {e : PartialValuation}
    (value : ∀ x, p.unfixed.at? number = some x →
      e.read x = some ((Variable.literal x).observe event).value) :
    WeightedSum.Alike e q.asSum p.asSum := by
  rcases notify_cases consistent h with ⟨-, rfl, -⟩ | ⟨x, known, -, same, -, threshold, -⟩
  · exact WeightedSum.alike_refl e _
  · rw [asSum, asSum, threshold]
    exact ((WeightedSum.count_alike_perm same _).trans
      (WeightedSum.count_alike_cons (value x known))).symm

inductive RunsTo {β : Type} (p : AtLeast ν) (self : PropagatorId) (s : Domains) :
    Except Inconsistency (Verdict β) → Domains → Prop where
  | reached (reached : p.IsReached) : RunsTo p self s (.ok .subsumed) s
  | conflict (unreachable : p.IsUnreachable) : RunsTo p self s (.error (.conflict self)) s
  | tight {r : Except Inconsistency Unit} {t : Domains} (reachable : ¬ p.IsUnreachable)
      (tight : p.IsTight) (required : exec (requireAll p.unfixed.toList true) s = .ok (r, t)) :
      RunsTo p self s (r.map fun _ => .subsumed) t
  | waiting (notReached : ¬ p.IsReached) (loose : ¬ p.IsTight) :
      RunsTo p self s (.ok .atFixpoint) s

theorem runsTo_of_exec {β : Type} {p : AtLeast ν} {self : PropagatorId} {s t : Domains}
    {r : Except Inconsistency (Verdict β)} (h : exec (p.propagate self) s = .ok (r, t)) :
    RunsTo p self s r t := by
  unfold propagate at h
  dsimp only at h
  by_cases reached : p.IsReached
  · rw [if_pos reached] at h
    obtain ⟨rfl, rfl⟩ := exec_pure_eq h
    exact .reached reached
  rw [if_neg reached] at h
  by_cases unreachable : p.IsUnreachable
  · rw [if_pos unreachable] at h
    rcases exec_bind_cases h with ⟨_, _, stopped, -⟩ | ⟨i, stopped, rfl⟩
    · cases (exec_throw_eq stopped).2
    · obtain ⟨rfl, same⟩ := exec_throw_eq stopped
      cases same
      exact .conflict unreachable
  rw [if_neg unreachable] at h
  by_cases tight : p.IsTight
  · rw [if_pos tight] at h
    obtain ⟨q, required, rfl⟩ := exec_then_pure h
    exact .tight unreachable tight required
  · rw [if_neg tight] at h
    obtain ⟨rfl, rfl⟩ := exec_pure_eq h
    exact .waiting reached tight

theorem refuted_of_unreachable {p : AtLeast ν} (unreachable : p.IsUnreachable)
    (e : PartialValuation) : p.asSum.Refuted e := by
  apply WeightedSum.count_refuted_of_unreachable
  rw [p.unfixed.length_toList]
  exact unreachable

theorem stableAt_of_tight {p : AtLeast ν} (reachable : ¬ p.IsUnreachable) (tight : p.IsTight)
    (e : PartialValuation) :
    p.asSum.StableAt e ↔ ∀ x ∈ p.unfixed.toList, e.read x = some true := by
  apply WeightedSum.count_stableAt_of_tight
  unfold IsTight at tight
  unfold IsUnreachable at reachable
  rw [p.unfixed.length_toList]
  omega

theorem propagate_justified {β : Type} {p : AtLeast ν} {self : PropagatorId} {s t : Domains}
    {r : Except Inconsistency (Verdict β)} (stableAs : β → PartialValuation → Prop)
    (h : exec (p.propagate self) s = .ok (r, t)) :
    Justified p.asSum.StableAt stableAs s.known t.known r := by
  cases runsTo_of_exec h with
  | reached reached =>
    exact ⟨fun e above _ => above, fun e _ => WeightedSum.count_stableAt_of_reached reached⟩
  | conflict unreachable =>
    intro e _ stable
    cases WeightedSum.control_false_of_refuted stable (refuted_of_unreachable unreachable e)
  | @tight q _ reachable tight required =>
    have needed := stableAt_of_tight reachable tight
    cases q with
    | error i =>
      intro e above stable
      exact absurd (requireAll_met required above ((needed e).1 stable)).1 (by simp)
    | ok _ =>
      refine ⟨fun e above stable => (requireAll_met required above ((needed e).1 stable)).2, ?_⟩
      intro e above
      have values := read_after_requireAll required
      apply (needed e).2
      intro x member
      exact read_of_extends above (values x member)
  | waiting => exact fun e above _ => above

theorem calm_of_atFixpoint {β : Type} {p : AtLeast ν} {self : PropagatorId} {s t : Domains}
    (h : exec (p.propagate (β := β) self) s = .ok (.ok .atFixpoint, t)) :
    ¬ p.IsReached ∧ ¬ p.IsTight := by
  generalize outcome : (Except.ok .atFixpoint : Except Inconsistency (Verdict β)) = r at h
  cases runsTo_of_exec h with
  | reached | conflict => cases outcome
  | @tight q => cases q <;> cases outcome
  | waiting notReached loose => exact ⟨notReached, loose⟩

theorem stableAt_of_calm {p : AtLeast ν} {e : PartialValuation} (tight : ¬ p.IsTight)
    (free : ∀ x ∈ p.unfixed.toList, e.read x = none) : p.asSum.StableAt e := by
  have size := numPossible_of_free free
  rw [p.unfixed.length_toList] at size
  unfold IsTight at tight
  apply (WeightedSum.stableAt_of_control_true rfl).2
  rw [asSum, WeightedSum.count_refuted_iff, WeightedSum.count_pruned_iff]
  constructor
  · omega
  · intro x _ _
    omega

end AtLeast

namespace ImpliedAtLeast

theorem alike_create {b : Blueprint ν} {s : Domains} {p : ImpliedAtLeast ν}
    {registrations : List Registration} (h : create b s = .ok (p, registrations))
    {e : PartialValuation} (above : e.Extends s.known) :
    WeightedSum.Alike e p.asSum b.asSum := by
  obtain ⟨⟨rest, n⟩, separated, h⟩ := bind_eq_ok_iff.1 h
  obtain ⟨rfl, -⟩ := pure_pair_eq_ok_iff.1 h
  exact (WeightedSum.count_alike_separate separated above).symm

theorem consistent_of_create {b : Blueprint ν} {s : Domains} {p : ImpliedAtLeast ν}
    {registrations : List Registration} (h : create b s = .ok (p, registrations)) :
    p.Consistent := by
  obtain ⟨⟨rest, n⟩, -, h⟩ := bind_eq_ok_iff.1 h
  obtain ⟨rfl, -⟩ := pure_pair_eq_ok_iff.1 h
  have beyond : (OpenVariables.ofList rest).at? ⟨rest.length⟩ = none := by
    rw [OpenVariables.at?_ofList]
    exact List.getElem?_eq_none (Nat.le_refl _)
  exact ⟨OpenVariables.consistent_ofList rest, beyond, rfl⟩

theorem notify_cases {p q : ImpliedAtLeast ν} (consistent : p.Consistent) {number : LocalId}
    {event : Event} {decision : Decision} (h : p.notify number event = .ok (q, decision)) :
    (number = p.controlNumber ∧ q = p ∧ decision = .enqueue) ∨
      (number ≠ p.controlNumber ∧ p.unfixed.at? number = none ∧ q = p ∧ decision = .skip) ∨
      ∃ x, number ≠ p.controlNumber ∧ p.unfixed.at? number = some x ∧ q.Consistent ∧
        q.control = p.control ∧ q.controlNumber = p.controlNumber ∧
        p.unfixed.toList.Perm (x :: q.unfixed.toList) ∧
        (∀ k, q.unfixed.at? k = if k = number then none else p.unfixed.at? k) ∧
        q.threshold = (if ((Variable.literal x).observe event).value
          then saturatingSub p.threshold 1 else p.threshold) ∧
        (decision = .enqueue ↔ q.IsUnreachable ∨ q.IsReached) := by
  unfold notify at h
  split at h
  · next ofControl =>
    obtain ⟨rfl, rfl⟩ := pure_pair_eq_ok_iff.1 h
    exact Or.inl ⟨ofControl, rfl, rfl⟩
  next other =>
  obtain ⟨⟨found, unfixed⟩, removed, h⟩ := bind_eq_ok_iff.1 h
  rcases OpenVariables.remove_cases consistent.unfixed removed with
    ⟨rfl, unknown, -⟩ | ⟨x, rfl, known, after, same, others⟩
  · obtain ⟨rfl, rfl⟩ := pure_pair_eq_ok_iff.1 h
    exact Or.inr (Or.inl ⟨other, unknown, rfl, rfl⟩)
  · obtain ⟨numUnfixed, lowered, h⟩ := bind_eq_ok_iff.1 h
    dsimp only at h
    split at h
    · cases h
    next counted =>
    obtain ⟨rfl, rfl⟩ := pure_pair_eq_ok_iff.1 h
    have apart : unfixed.at? p.controlNumber = none := by
      rw [others, consistent.apart, ite_self]
    exact Or.inr (Or.inr ⟨x, other, known, ⟨after, apart, not_not.1 counted⟩, rfl, rfl, same,
      others, rfl, Decision.eq_enqueue_iff _⟩)

theorem alike_notify {p q : ImpliedAtLeast ν} (consistent : p.Consistent) {number : LocalId}
    {event : Event} {decision : Decision} (h : p.notify number event = .ok (q, decision))
    {e : PartialValuation}
    (value : ∀ x, number ≠ p.controlNumber → p.unfixed.at? number = some x →
      e.read x = some ((Variable.literal x).observe event).value) :
    WeightedSum.Alike e q.asSum p.asSum := by
  rcases notify_cases consistent h with
    ⟨-, rfl, -⟩ | ⟨-, -, rfl, -⟩ | ⟨x, other, known, -, control, -, same, -, threshold, -⟩
  · exact WeightedSum.alike_refl e _
  · exact WeightedSum.alike_refl e _
  · rw [asSum, asSum, threshold, control]
    exact ((WeightedSum.count_alike_perm same _).trans
      (WeightedSum.count_alike_cons (value x other known))).symm

theorem refuted_iff {p : ImpliedAtLeast ν} {e : PartialValuation} :
    p.asSum.Refuted e ↔ (e.numPossible p.unfixed.toList : Int) < p.threshold :=
  WeightedSum.count_refuted_iff

theorem refuted_of_unreachable {p : ImpliedAtLeast ν} (consistent : p.Consistent)
    (unreachable : p.IsUnreachable) (e : PartialValuation) : p.asSum.Refuted e := by
  have few := e.numPossible_le p.unfixed.toList
  rw [p.unfixed.length_toList, ← consistent.numUnfixed] at few
  unfold IsUnreachable at unreachable
  rw [refuted_iff]
  omega

inductive RunsTo (p : ImpliedAtLeast ν) (s : Domains) :
    Except Inconsistency (ImpliedAtLeast ν × Verdict (AtLeast.Blueprint ν)) → Domains → Prop where
  | vacuous (value : s.known.read p.control = some false) : RunsTo p s (.ok (p, .subsumed)) s
  | reached (reached : p.IsReached) : RunsTo p s (.ok (p, .subsumed)) s
  | rejected {r : Except Inconsistency Unit} {t : Domains} (unreachable : p.IsUnreachable)
      (required : exec (require p.control false) s = .ok (r, t)) :
      RunsTo p s (r.map fun _ => (p, .subsumed)) t
  | waiting (value : s.known.read p.control = none) (notReached : ¬ p.IsReached)
      (reachable : ¬ p.IsUnreachable) : RunsTo p s (.ok (p, .atFixpoint)) s
  | replaced (value : s.known.read p.control = some true) :
      RunsTo p s (.ok ({ p with unfixed := p.unfixed.cleared, numUnfixed := 0 },
        .replaceBy { vars := p.unfixed.toList, threshold := p.threshold })) s

omit [Variable ν] in
theorem runsTo_of_exec {p : ImpliedAtLeast ν} {s t : Domains}
    {r : Except Inconsistency (ImpliedAtLeast ν × Verdict (AtLeast.Blueprint ν))}
    (h : exec p.propagate s = .ok (r, t)) : RunsTo p s r t := by
  have h := exec_read_bind h
  cases value : s.known.read p.control with
  | none =>
    rw [value] at h
    dsimp only at h
    by_cases unreachable : p.IsUnreachable
    · rw [if_pos unreachable] at h
      obtain ⟨q, required, rfl⟩ := exec_then_pure h
      exact .rejected unreachable required
    rw [if_neg unreachable] at h
    by_cases reached : p.IsReached
    · rw [if_pos reached] at h
      obtain ⟨rfl, rfl⟩ := exec_pure_eq h
      exact .reached reached
    · rw [if_neg reached] at h
      obtain ⟨rfl, rfl⟩ := exec_pure_eq h
      exact .waiting value reached unreachable
  | some b =>
    rw [value] at h
    cases b with
    | false =>
      obtain ⟨rfl, rfl⟩ := exec_pure_eq h
      exact .vacuous value
    | true =>
      dsimp only at h
      by_cases reached : p.IsReached
      · rw [if_pos reached] at h
        obtain ⟨rfl, rfl⟩ := exec_pure_eq h
        exact .reached reached
      · rw [if_neg reached] at h
        obtain ⟨rfl, rfl⟩ := exec_pure_eq h
        exact .replaced value

theorem propagate_justified {p q : ImpliedAtLeast ν} (consistent : p.Consistent) {s t : Domains}
    {verdict : Verdict (AtLeast.Blueprint ν)}
    (h : exec p.propagate s = .ok (.ok (q, verdict), t)) :
    Justified p.asSum.StableAt (fun b => b.asSum.StableAt) s.known t.known (.ok verdict) ∧
      ((∃ b, verdict = .replaceBy b) ∨ q = p) := by
  generalize outcome : Except.ok (q, verdict) = r at h
  cases runsTo_of_exec h with
  | vacuous value =>
    cases outcome
    refine ⟨⟨fun e above _ => above, fun e above => ?_⟩, Or.inr rfl⟩
    exact WeightedSum.stableAt_of_control_false (read_of_extends above value)
  | reached reached =>
    cases outcome
    refine ⟨⟨fun e above _ => above, fun e _ => ?_⟩, Or.inr rfl⟩
    exact WeightedSum.count_stableAt_of_reached reached
  | @rejected required _ unreachable done =>
    cases required with
    | error i => cases outcome
    | ok _ =>
      cases outcome
      refine ⟨⟨?_, ?_⟩, Or.inr rfl⟩
      · intro e above stable
        have refuted := refuted_of_unreachable consistent unreachable e
        exact (require_met done above (WeightedSum.control_false_of_refuted stable refuted)).2
      · intro e above
        exact WeightedSum.stableAt_of_control_false ((extends_after_require done e).1 above).2
  | waiting =>
    cases outcome
    exact ⟨fun e above _ => above, Or.inr rfl⟩
  | replaced value =>
    cases outcome
    refine ⟨⟨fun e above _ => above, fun e above => ?_⟩, Or.inl ⟨_, rfl⟩⟩
    exact WeightedSum.stableAt_uncontrolled (read_of_extends above value)

theorem not_stableAt_of_stopped {p : ImpliedAtLeast ν} (consistent : p.Consistent) {s t : Domains}
    {i : Inconsistency} (h : exec p.propagate s = .ok (.error i, t)) {e : PartialValuation}
    (above : e.Extends s.known) : ¬ p.asSum.StableAt e := by
  intro stable
  generalize outcome : Except.error i = r at h
  cases runsTo_of_exec h with
  | vacuous | reached | waiting | replaced => cases outcome
  | rejected unreachable required =>
    have refuted := refuted_of_unreachable consistent unreachable e
    have control := WeightedSum.control_false_of_refuted stable refuted
    obtain ⟨rfl, -⟩ := require_met required above control
    cases outcome

omit [Variable ν] in
theorem calm_of_atFixpoint {p q : ImpliedAtLeast ν} {s t : Domains}
    (h : exec p.propagate s = .ok (.ok (q, .atFixpoint), t)) :
    s.known.read p.control = none ∧ t = s ∧ ¬ p.IsReached ∧ ¬ p.IsUnreachable := by
  generalize outcome : Except.ok (q, Verdict.atFixpoint) = r at h
  cases runsTo_of_exec h with
  | vacuous | reached | replaced => cases outcome
  | @rejected required => cases required <;> cases outcome
  | waiting value notReached reachable => exact ⟨value, rfl, notReached, reachable⟩

theorem stableAt_of_calm {p : ImpliedAtLeast ν} (consistent : p.Consistent) {e : PartialValuation}
    (reachable : ¬ p.IsUnreachable) (control : e.read p.control = none)
    (free : ∀ x ∈ p.unfixed.toList, e.read x = none) : p.asSum.StableAt e := by
  have size := numPossible_of_free free
  rw [p.unfixed.length_toList, ← consistent.numUnfixed] at size
  unfold IsUnreachable at reachable
  apply (WeightedSum.stableAt_of_control_free (p := p.asSum) control).2
  rw [refuted_iff]
  omega

end ImpliedAtLeast
end PseudoBoolean
