import PseudoBoolean.Proofs.Fixpoint

/-!
What an operation adds to a state, as a condition on stable points. Operations that follow each
other add up, and the order does not show: that is all that is needed to speak about whole runs.
-/
namespace PseudoBoolean
namespace State
variable {κ : Type} [PropagatorKinds κ] {s t u : State κ}

theorem failure_of_isFailed (h : s.isFailed = true) : ∃ i, s.failure = some i :=
  Option.isSome_iff_exists.1 h

variable [Semantics κ] {P Q : PartialValuation → Prop}
open Semantics

/-- The stable points of `t` are those of `s` that meet the condition. -/
def Gains (s t : State κ) (P : PartialValuation → Prop) : Prop :=
  s.WellFormed → t.WellFormed ∧ ∀ e, t.StableAt e ↔ s.StableAt e ∧ P e

theorem Gains.trans (h : s.Gains t P) (k : t.Gains u Q) : s.Gains u fun e => P e ∧ Q e := by
  intro wf
  have ⟨wf, first⟩ := h wf
  have ⟨wf, second⟩ := k wf
  refine ⟨wf, ?_⟩
  intro e
  rw [second, first, and_assoc]

theorem Gains.congr (h : s.Gains t P) (same : ∀ e, s.StableAt e → (P e ↔ Q e)) : s.Gains t Q := by
  intro wf
  have ⟨wf, gained⟩ := h wf
  refine ⟨wf, ?_⟩
  intro e
  rw [gained]
  exact and_congr_right (same e)

theorem Gains.of_always (h : s.Gains t fun _ => True) (always : ∀ e, s.StableAt e → P e) :
    s.Gains t P :=
  h.congr fun e stable => iff_of_true trivial (always e stable)

theorem gains_of_failed {i j : Inconsistency} (before : s.failure = some i)
    (after : t.failure = some j) : s.Gains t P := by
  intro _
  refine ⟨fun sound => ?_, fun e => ?_⟩
  · rw [after] at sound
    cases sound
  · exact iff_of_false (not_stableAt_of_failure after e)
      fun both => not_stableAt_of_failure before e both.1

theorem gains_of_impossible {i : Inconsistency} (failure : t.failure = some i)
    (impossible : ∀ e, s.StableAt e → ¬ P e) : s.Gains t P := by
  intro _
  refine ⟨fun sound => ?_, fun e => ?_⟩
  · rw [failure] at sound
    cases sound
  · exact iff_of_false (not_stableAt_of_failure failure e) fun both => impossible e both.1 both.2

theorem gains_self_of_isFailed (h : s.isFailed = true) : s.Gains s P := by
  obtain ⟨i, failure⟩ := failure_of_isFailed h
  exact gains_of_failed failure failure

variable [Contract κ]

theorem gains_of_same (domains : t.domains = s.domains) (subs : t.subscriptions = s.subscriptions)
    (roster : t.roster = s.roster) (agenda : t.agenda = s.agenda)
    (failure : t.failure = s.failure) :
    s.Gains t fun _ => True := by
  intro wf
  refine ⟨fun sound => (wf (failure ▸ sound)).of_same domains subs roster agenda, fun e => ?_⟩
  unfold StableAt
  rw [domains, roster, failure, and_true]

theorem gains_remark (s : State κ) (r : Remark) : s.Gains (s.remark r) fun _ => True :=
  gains_of_same rfl rfl rfl rfl rfl

theorem gains_refl (s : State κ) : s.Gains s fun _ => True := gains_of_same rfl rfl rfl rfl rfl

theorem Gains.after_remark {r : Remark} (h : (s.remark r).Gains t P) : s.Gains t P :=
  ((gains_remark s r).trans h).congr fun e _ => iff_of_eq (true_and (P e))

theorem gains_foldlM {α : Type} {f : State κ → α → Checked (State κ)}
    {C : α → PartialValuation → Prop}
    (step : ∀ {a : α} {s t : State κ}, f s a = .ok t → s.Gains t (C a)) {xs : List α}
    (h : xs.foldlM f s = .ok t) : s.Gains t fun e => ∀ a ∈ xs, C a e := by
  induction xs generalizing s with
  | nil =>
    rw [← pure_eq_ok_iff.1 h]
    exact (gains_refl s).congr fun e _ => by simp
  | cons a rest ih =>
    rw [List.foldlM_cons] at h
    obtain ⟨u, first, later⟩ := bind_eq_ok_iff.1 h
    exact ((step first).trans (ih later)).congr fun e _ => by simp

section fixing
variable {l : Literal} {v : Bool} {r : Fixing} {domains : Domains}

theorem gains_fixing (fixed : s.domains.fixVariable l v = .ok (r, domains))
    (met : r ≠ .contradicted) :
    s.Gains ({ s with domains } : State κ) fun e => e.read l = some v := by
  intro wf
  refine ⟨fun sound => (wf sound).fix fixed, fun e => ?_⟩
  have extends_iff := Domains.extends_after_fix fixed met e
  have value_iff := PartialValuation.read_eq_some_iff (e := e) (x := l) (b := v)
  constructor
  · intro stable
    obtain ⟨sound, above, stable⟩ := stable
    obtain ⟨above, value⟩ := extends_iff.1 above
    exact ⟨⟨sound, above, stable⟩, value_iff.2 value⟩
  · intro both
    obtain ⟨⟨sound, above, stable⟩, value⟩ := both
    exact ⟨sound, extends_iff.2 ⟨above, value_iff.1 value⟩, stable⟩

omit [Contract κ] in
theorem not_stableAt_of_contradicted
    (fixed : s.domains.fixVariable l v = .ok (.contradicted, domains))
    (e : PartialValuation) (stable : s.StableAt e) : e.read l ≠ some v := by
  intro value
  apply Domains.not_extends_of_contradicted fixed e
  exact ⟨stable.2.1, PartialValuation.read_eq_some_iff.1 value⟩

theorem gains_assign {o : Except Inconsistency Unit} (h : s.assign l v = .ok (o, t)) :
    s.Gains t fun e => e.read l = some v := by
  unfold assign at h
  cases failure : s.failure with
  | some i =>
    rw [failure] at h
    obtain ⟨-, rfl⟩ := pure_pair_eq_ok_iff.1 h
    exact gains_of_failed failure failure
  | none =>
    rw [failure] at h
    obtain ⟨⟨r, domains⟩, fixed, h⟩ := bind_eq_ok_iff.1 h
    cases r with
    | changed | unchanged =>
      obtain ⟨-, rfl⟩ := pure_pair_eq_ok_iff.1 h
      have gained := gains_fixing fixed (by simp)
      rw [failure] at gained
      exact gained
    | contradicted =>
      obtain ⟨-, rfl⟩ := pure_pair_eq_ok_iff.1 h
      exact gains_of_impossible rfl (not_stableAt_of_contradicted fixed)

theorem gains_fixAtPost (h : s.fixAtPost l v = .ok t) : s.Gains t fun e => e.read l = some v := by
  unfold fixAtPost at h
  by_cases failed : s.isFailed = true
  · rw [if_pos failed] at h
    rw [← pure_eq_ok_iff.1 h]
    exact gains_self_of_isFailed failed
  · rw [if_neg failed] at h
    obtain ⟨⟨r, domains⟩, fixed, h⟩ := bind_eq_ok_iff.1 h
    cases r with
    | changed | unchanged =>
      rw [← pure_eq_ok_iff.1 h]
      exact gains_fixing fixed (by simp)
    | contradicted =>
      rw [← pure_eq_ok_iff.1 h]
      exact gains_of_impossible rfl (not_stableAt_of_contradicted fixed)

theorem gains_fixAll {xs : List Literal} (h : xs.foldlM (fixAtPost · · v) s = .ok t) :
    s.Gains t fun e => ∀ x ∈ xs, e.read x = some v :=
  gains_foldlM (C := fun x e => e.read x = some v) gains_fixAtPost h

end fixing

omit [Contract κ] in
theorem gains_failAtPost (i : Inconsistency) (impossible : ∀ e, s.StableAt e → ¬ P e) :
    s.Gains (s.failAtPost i) P := by
  unfold failAtPost
  by_cases failed : s.isFailed = true
  · rw [if_pos failed]
    exact gains_self_of_isFailed failed
  · rw [if_neg failed]
    exact gains_of_impossible rfl impossible

theorem gains_newLiteral (s : State κ) : s.Gains s.newLiteral.2 fun _ => True := by
  intro wf
  refine ⟨fun sound => ?_, fun e => ?_⟩
  · have h := wf sound
    have hears := fun e d w => Subscriptions.hears_grow (s := s.subscriptions) (e := e) (d := d)
      (w := w)
    refine ⟨h.agenda, h.faithful.grow, ?_, fun never => never.elim, ?_⟩
    · intro e d w heard
      exact h.heard ((hears e d w).1 heard)
    · intro id p active
      apply (h.attended active).of_reported (t := s.newLiteral.2) (fun e d n => hears e d ⟨id, n⟩)
        (fun queued => queued)
      have known : s.newLiteral.2.domains.known = s.domains.known := Domains.known_grow s.domains
      rw [known]
      apply reported_of_subset
      intro n fresh
      obtain ⟨e, d, never | ⟨pending, heard⟩⟩ := fresh
      · exact never.elim
      · exact ⟨e, d, Or.inr ⟨pending, (hears e d ⟨id, n⟩).2 heard⟩⟩
  · unfold StableAt
    rw [and_true]
    have known : s.newLiteral.2.domains.known = s.domains.known := Domains.known_grow s.domains
    rw [known]
    rfl

theorem gains_addPropagator {b : AnyBlueprint κ} {id : PropagatorId}
    (h : s.addPropagator b = .ok (id, t)) : s.Gains t (AsksFor b) := by
  intro wf
  have ⟨_, _, _, _, _, _, _, failure, _⟩ := addPropagator_cases h
  refine ⟨fun sound => ?_, stableAt_addPropagator h⟩
  have sound : s.failure = none := failure ▸ sound
  exact (wf sound).addPropagator sound h

/-- A propagation either succeeds, at a fixpoint that its work led to, or the state has failed and
    there was no stable point. -/
theorem propagate_cases (wf : s.WellFormed) {r : Except Inconsistency Unit}
    (h : s.propagate = .ok (r, t)) :
    (r = .ok () ∧ t.AtFixpoint ∧ s.Works t) ∨
      ∃ i, r = .error i ∧ t.failure = some i ∧ ∀ e, ¬ s.StableAt e := by
  unfold propagate at h
  cases failure : s.failure with
  | some i =>
    rw [failure] at h
    obtain ⟨rfl, rfl⟩ := pure_pair_eq_ok_iff.1 h
    exact Or.inr ⟨i, rfl, failure, not_stableAt_of_failure failure⟩
  | none =>
    rw [failure] at h
    exact fixpointWithin_keeps (wf failure) failure h

theorem gains_propagate {r : Except Inconsistency Unit} (h : s.propagate = .ok (r, t)) :
    s.Gains t fun _ => True := by
  intro wf
  rcases propagate_cases wf h with ⟨-, fixpoint, works⟩ | ⟨i, -, failed, never⟩
  · exact ⟨fun _ => fixpoint.coherent, fun e => by rw [stableAt_of_works works, and_true]⟩
  · exact gains_of_impossible failed (fun e stable _ => never e stable) wf

theorem atFixpoint_of_propagate (wf : s.WellFormed) (h : s.propagate = .ok (.ok (), t)) :
    t.AtFixpoint := by
  rcases propagate_cases wf h with ⟨-, fixpoint, -⟩ | ⟨i, outcome, -⟩
  · exact fixpoint
  · cases outcome

theorem atFixpoint_or_failed (wf : s.WellFormed) {r : Except Inconsistency Unit}
    (h : s.propagate = .ok (r, t)) : t.AtFixpoint ∨ ∃ i, t.failure = some i := by
  rcases propagate_cases wf h with ⟨-, fixpoint, -⟩ | ⟨i, -, failed, -⟩
  · exact Or.inl fixpoint
  · exact Or.inr ⟨i, failed⟩

end State
end PseudoBoolean
