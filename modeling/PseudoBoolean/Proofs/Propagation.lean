import PseudoBoolean.Propagation
import PseudoBoolean.Proofs.Domains

/-!
What can be read off the outcome of an attempt. A requirement that is met at a partial valuation
above the store is never contradicted, and the store it leaves is still below.
-/
namespace PseudoBoolean
namespace Attempt
variable {α β : Type} {ν : Type} [Variable ν]

theorem exec_bind_cases {x : Attempt α} {f : α → Attempt β} {s t : Domains}
    {r : Except Inconsistency β} (h : exec (x >>= f) s = .ok (r, t)) :
    (∃ a u, exec x s = .ok (.ok a, u) ∧ exec (f a) u = .ok (r, t)) ∨
      ∃ i, exec x s = .ok (.error i, t) ∧ r = .error i := by
  rw [exec_bind] at h
  rcases first : exec x s with fault | ⟨i | a, u⟩ <;> rw [first] at h
  · cases h
  · cases h
    exact Or.inr ⟨i, rfl, rfl⟩
  · exact Or.inl ⟨a, u, rfl, h⟩

theorem exec_pure_eq {a : α} {s t : Domains} {r : Except Inconsistency α}
    (h : exec (pure a) s = .ok (r, t)) : t = s ∧ r = .ok a := by
  rw [exec_pure] at h
  cases h
  exact ⟨rfl, rfl⟩

theorem exec_throw_eq {i : Inconsistency} {s t : Domains} {r : Except Inconsistency α}
    (h : exec (throw i) s = .ok (r, t)) : t = s ∧ r = .error i := by
  rw [exec_throw] at h
  cases h
  exact ⟨rfl, rfl⟩

theorem exec_read_bind {x : ν} {f : Option Bool → Attempt β} {s t : Domains}
    {r : Except Inconsistency β} (h : exec (read x >>= f) s = .ok (r, t)) :
    exec (f (s.known.read x)) s = .ok (r, t) := by
  rw [exec_bind, exec_read] at h
  cases got : s.read x with
  | error fault =>
    rw [got] at h
    cases h
  | ok value =>
    rw [got] at h
    rw [Domains.known_of_read got]
    exact h

theorem exec_then_pure {α γ : Type} {x : Attempt γ} {f : γ → α} {s t : Domains}
    {r : Except Inconsistency α} (h : exec (x >>= fun b => pure (f b)) s = .ok (r, t)) :
    ∃ q, exec x s = .ok (q, t) ∧ r = q.map f := by
  rcases exec_bind_cases h with ⟨b, u, first, later⟩ | ⟨i, first, rfl⟩
  · obtain ⟨rfl, rfl⟩ := exec_pure_eq later
    exact ⟨.ok b, first, rfl⟩
  · exact ⟨.error i, first, rfl⟩

theorem exec_require_eq {x : ν} {v : Bool} {s t : Domains} {r : Except Inconsistency Unit}
    (h : exec (require x v) s = .ok (r, t)) :
    ∃ fixing, s.fixVariable x v = .ok (fixing, t) ∧
      r = if fixing = .contradicted then .error .emptyDomain else .ok () := by
  cases fixed : s.fixVariable x v with
  | error fault =>
    have lifted : exec (ExceptT.lift (Propagation.fix x v) : Attempt Fixing) s = .error fault := by
      unfold exec
      rw [ExceptT.run_lift, map_eq_pure_bind, Propagation.run_bind, Propagation.run_fix, fixed]
    rw [require, exec_bind, lifted] at h
    cases h
  | ok result =>
    obtain ⟨fixing, u⟩ := result
    rw [exec_require fixed] at h
    cases h
    exact ⟨fixing, rfl, rfl⟩

theorem extends_after_require {x : ν} {v : Bool} {s t : Domains}
    (h : exec (require x v) s = .ok (.ok (), t)) (e : PartialValuation) :
    e.Extends t.known ↔ e.Extends s.known ∧ e.read x = some v := by
  obtain ⟨fixing, fixed, outcome⟩ := exec_require_eq h
  rw [PartialValuation.read_eq_some_iff]
  apply Domains.extends_after_fix fixed
  intro contradicted
  rw [if_pos contradicted] at outcome
  cases outcome

theorem require_met {x : ν} {v : Bool} {s t : Domains} {r : Except Inconsistency Unit}
    {e : PartialValuation} (h : exec (require x v) s = .ok (r, t)) (above : e.Extends s.known)
    (value : e.read x = some v) : r = .ok () ∧ e.Extends t.known := by
  obtain ⟨fixing, fixed, outcome⟩ := exec_require_eq h
  have at_domain := PartialValuation.read_eq_some_iff.1 value
  by_cases contradicted : fixing = .contradicted
  · rw [contradicted] at fixed
    exact absurd ⟨above, at_domain⟩ (Domains.not_extends_of_contradicted fixed e)
  · rw [if_neg contradicted] at outcome
    exact ⟨outcome, (Domains.extends_after_fix fixed contradicted e).2 ⟨above, at_domain⟩⟩

theorem extends_of_exec {x : Attempt α} {s t : Domains} {r : Except Inconsistency α}
    (h : exec x s = .ok (r, t)) : t.known.Extends s.known := (leadsTo_of_exec h).extends

theorem requireAll_met {xs : List ν} {v : Bool} {s t : Domains} {r : Except Inconsistency Unit}
    {e : PartialValuation} (h : exec (requireAll xs v) s = .ok (r, t))
    (above : e.Extends s.known) (values : ∀ x ∈ xs, e.read x = some v) :
    r = .ok () ∧ e.Extends t.known := by
  induction xs generalizing s with
  | nil =>
    obtain ⟨rfl, rfl⟩ := exec_pure_eq h
    exact ⟨rfl, above⟩
  | cons x rest ih =>
    rcases exec_bind_cases h with ⟨_, u, first, later⟩ | ⟨i, first, rfl⟩
    · have met := require_met first above (values x List.mem_cons_self)
      exact ih later met.2 fun y member => values y (List.mem_cons_of_mem x member)
    · exact absurd (require_met first above (values x List.mem_cons_self)).1 (by simp)

theorem read_after_requireAll {xs : List ν} {v : Bool} {s t : Domains}
    (h : exec (requireAll xs v) s = .ok (.ok (), t)) : ∀ x ∈ xs, t.known.read x = some v := by
  induction xs generalizing s with
  | nil => simp
  | cons x rest ih =>
    rcases exec_bind_cases h with ⟨_, u, first, later⟩ | ⟨i, _, outcome⟩
    · intro y member
      rcases List.mem_cons.1 member with rfl | inner
      · have value := ((extends_after_require first u.known).1
          (PartialValuation.extends_refl _)).2
        exact PartialValuation.read_of_extends (extends_of_exec later) value
      · exact ih later y inner
    · cases outcome

theorem run_keeping {μ : Type} {m n : μ} {x : Attempt (μ × α)} {s t : Domains}
    {r : Except Inconsistency α} (h : (keeping m x).run s = .ok ((n, r), t)) :
    (∃ a, exec x s = .ok (.ok (n, a), t) ∧ r = .ok a) ∨
      ∃ i, exec x s = .ok (.error i, t) ∧ n = m ∧ r = .error i := by
  unfold keeping at h
  unfold exec
  rw [Propagation.run_bind] at h
  rcases outcome : (ExceptT.run x).run s with fault | ⟨i | ⟨next, a⟩, u⟩ <;> rw [outcome] at h
  · cases h
  · cases h
    exact Or.inr ⟨i, rfl, rfl, rfl⟩
  · cases h
    exact Or.inl ⟨a, rfl, rfl⟩

theorem run_keeping_pair {μ : Type} {m n : μ} {x : Attempt α} {s t : Domains}
    {r : Except Inconsistency α}
    (h : (keeping m (x >>= fun a => pure (m, a))).run s = .ok ((n, r), t)) :
    n = m ∧ exec x s = .ok (r, t) := by
  rcases run_keeping h with ⟨a, attempted, rfl⟩ | ⟨i, attempted, rfl, rfl⟩
  · obtain ⟨q, first, outcome⟩ := exec_then_pure attempted
    cases q <;> cases outcome
    exact ⟨rfl, first⟩
  · obtain ⟨q, first, outcome⟩ := exec_then_pure attempted
    cases q <;> cases outcome
    exact ⟨rfl, first⟩

end Attempt
end PseudoBoolean
